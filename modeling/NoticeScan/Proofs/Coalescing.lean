import Mathlib
import NoticeScan.Scan.Fragments

/-!
# Clusters of hits

Hits with contract words are cut into clusters: a new one begins at every hit that lies far behind
the hit before it. The fragments collected from hits in scan order are the first clusters, as many
as are kept. That a hit beyond them is compared with the last fragment that is kept, and not with
the hit before, makes no difference: hits come in order, so it lies even farther behind that one.
-/

namespace NoticeScan.Scan

/-- A hit lies far behind the one before: in characters and in lines. -/
def Fragment.FarBehind (next prior : Fragment) : Prop :=
  prior.stop + 300 ≤ next.start ∧ prior.endLine + 6 ≤ next.startLine

instance (next prior : Fragment) : Decidable (next.FarBehind prior) :=
  inferInstanceAs (Decidable (_ ∧ _))

/-- Hits, cut in front of every one that lies far behind the hit before. -/
def clusters (hits : List Fragment) : List (List Fragment) :=
  hits.splitBy fun prior next => !decide (next.FarBehind prior)

/-- Hits as a scan meets them: each reaches forward, and starts where the one before has ended or
behind that. -/
structure InScanOrder (hits : List Fragment) : Prop where
  forward : ∀ hit ∈ hits, hit.start ≤ hit.stop ∧ hit.startLine ≤ hit.endLine
  ordered : hits.IsChain fun prior next =>
    prior.stop ≤ next.start ∧ prior.endLine ≤ next.startLine

/-- A stretch of a text joins the hits of a cluster: it reaches from the first to the last. -/
structure Joins (cluster : List Fragment) (joined : Fragment) : Prop where
  text : joined.text = "...".toList.intercalate (cluster.map Fragment.text)
  start : cluster.head?.map (fun first => (first.start, first.startLine)) =
    some (joined.start, joined.startLine)
  stop : cluster.getLast?.map (fun last => (last.stop, last.endLine)) =
    some (joined.stop, joined.endLine)

/-- A finding reports a cluster of hits as a licence that nobody knows. -/
structure ReportsCluster (cluster : List Fragment) (finding : Finding) : Prop where
  party : finding.party = .unknown
  kind : finding.kind = .license
  joins : Joins cluster
    ⟨finding.text, finding.startLine, finding.endLine, finding.start, finding.stop⟩

/-! ## Cutting behind one more hit -/

section Clusters

variable {hits front : List Fragment} {last next : Fragment}

theorem isCloseTo_iff (next prior : Fragment) :
    next.isCloseTo prior = true ↔ ¬ next.FarBehind prior := by
  rw [Fragment.isCloseTo, Bool.or_eq_true, decide_eq_true_eq, decide_eq_true_eq,
    Fragment.FarBehind, joinLines, joinChars]
  omega

/-- A hit that lies far behind the last one makes up a cluster by itself. -/
theorem clusters_append_far
    (isLast : hits.getLast? = some last)
    (far : next.FarBehind last) :
    clusters (hits ++ [next]) = clusters hits ++ [[next]] := by
  have cut : ∀ x ∈ hits.getLast?, (!decide (next.FarBehind x)) = false := by
    intro x member
    rw [isLast, Option.mem_some_iff] at member
    rw [← member, decide_eq_true far]
    rfl
  exact List.splitBy_append_cons [] cut

/-- The last hit ends the last cluster. -/
theorem exists_last_cluster
    (isLast : hits.getLast? = some last) :
    ∃ before cluster, clusters hits = before ++ [cluster] ∧ cluster.getLast? = some last := by
  have nonempty : hits ≠ [] := List.ne_nil_of_mem (List.mem_of_getLast? isLast)
  have cut : clusters hits ≠ [] := List.splitBy_ne_nil.mpr nonempty
  refine ⟨(clusters hits).dropLast, (clusters hits).getLast cut,
    (List.dropLast_append_getLast cut).symm, ?_⟩
  have same := List.getLast_getLast_splitBy
    (fun prior next : Fragment => !decide (next.FarBehind prior)) nonempty
  rw [List.getLast?_eq_some_getLast nonempty] at isLast
  rw [← Option.some.inj isLast, ← same]
  exact List.getLast?_eq_some_getLast _

/-- A hit that does not lie far behind the last one belongs to the last cluster. -/
theorem clusters_append_near
    {before : List (List Fragment)} {cluster : List Fragment}
    (cut : clusters hits = before ++ [cluster])
    (isLast : cluster.getLast? = some last)
    (near : ¬ next.FarBehind last) :
    clusters (hits ++ [next]) = before ++ [cluster ++ [next]] := by
  obtain ⟨whole, noNil, chains, apart⟩ := List.splitBy_eq_iff.mp cut
  have nonempty : cluster ≠ [] := List.ne_nil_of_mem (List.mem_of_getLast? isLast)
  apply List.splitBy_eq_iff.mpr
  refine ⟨?_, ?_, ?_, ?_⟩
  · rw [whole]
    simp
  · intro member
    rcases List.mem_append.mp member with early | late
    · exact noNil (List.mem_append_left _ early)
    · exact absurd (List.mem_singleton.mp late) (by simp)
  · intro group member
    rcases List.mem_append.mp member with early | late
    · exact chains group (List.mem_append_left _ early)
    · rw [List.mem_singleton.mp late]
      apply List.IsChain.append (chains cluster (List.mem_append_right _ List.mem_cons_self))
        (List.isChain_singleton next)
      intro x isX y isY
      rw [isLast, Option.mem_some_iff] at isX
      rw [List.head?_cons, Option.mem_some_iff] at isY
      rw [← isX, ← isY, decide_eq_false near]
      rfl
  · rw [List.isChain_append] at apart ⊢
    refine ⟨apart.1, List.isChain_singleton _, ?_⟩
    intro x isX y isY
    obtain ⟨ends, begins, notNear⟩ := apart.2.2 x isX cluster rfl
    rw [List.head?_cons, Option.mem_some_iff] at isY
    subst isY
    refine ⟨ends, List.append_ne_nil_of_left_ne_nil begins _, ?_⟩
    rwa [List.head_append_of_ne_nil begins]

end Clusters

/-! ## Joining hits -/

theorem intercalate_concat
    {pieces : List (List Char)}
    (nonempty : pieces ≠ [])
    (separator piece : List Char) :
    separator.intercalate (pieces ++ [piece]) =
      separator.intercalate pieces ++ separator ++ piece := by
  induction pieces with
  | nil => exact absurd rfl nonempty
  | cons first rest inductionHypothesis =>
      cases rest with
      | nil => simp [List.intercalate]
      | cons second others =>
          rw [List.cons_append, List.cons_append, List.intercalate_cons_cons,
            List.intercalate_cons_cons, ← List.cons_append,
            inductionHypothesis (List.cons_ne_nil _ _)]
          simp only [List.append_assoc]

namespace Joins

variable {cluster : List Fragment} {joined next last : Fragment}

theorem single (hit : Fragment) : Joins [hit] hit where
  text := by simp [List.intercalate]
  start := rfl
  stop := rfl

/-- A fragment that grows by a hit joins the hits before and this one. -/
theorem append
    (joins : Joins cluster joined)
    (next : Fragment) :
    Joins (cluster ++ [next]) (joined.join next) where
  text := by
    have nonempty : cluster.map Fragment.text ≠ [] := by
      intro empty
      have start := joins.start
      rw [List.map_eq_nil_iff.mp empty] at start
      cases start
    rw [List.map_append, List.map_singleton, intercalate_concat nonempty, ← joins.text]
    rfl
  start := by
    have start := joins.start
    cases cluster with
    | nil => cases start
    | cons first rest => exact start
  stop := by
    rw [List.getLast?_concat]
    rfl

theorem stop_eq
    (joins : Joins cluster joined)
    (isLast : cluster.getLast? = some last) :
    joined.stop = last.stop ∧ joined.endLine = last.endLine := by
  have stop := joins.stop
  rw [isLast] at stop
  exact ⟨(Prod.mk.inj (Option.some.inj stop)).1.symm, (Prod.mk.inj (Option.some.inj stop)).2.symm⟩

/-- A hit lies as far behind a fragment as behind the last hit that it joins. -/
theorem isCloseTo_iff
    (joins : Joins cluster joined)
    (isLast : cluster.getLast? = some last) :
    next.isCloseTo joined = true ↔ ¬ next.FarBehind last := by
  obtain ⟨stop, endLine⟩ := joins.stop_eq isLast
  rw [Scan.isCloseTo_iff, Fragment.FarBehind, Fragment.FarBehind, stop, endLine]

end Joins

/-! ## Collecting hits -/

/-- What has been collected from hits, of which at most so many clusters are kept. -/
structure Collects (limit : Int) (hits : List Fragment) (fragments : Fragments) : Prop where
  limit_eq : fragments.limit = limit
  last_eq : fragments.toList.getLast? = fragments.last
  /-- Clusters are counted rightly as long as they are kept. -/
  count : min fragments.count limit.toNat = min (clusters hits).length limit.toNat
  joins : List.Forall₂ Joins ((clusters hits).take limit.toNat) fragments.toList
  /-- Behind a cluster that is not kept, all is far behind the last fragment. -/
  beyond : limit.toNat < (clusters hits).length →
    ∀ joined ∈ fragments.last, ∀ last ∈ hits.getLast?, last.FarBehind joined

section Collecting

variable {limit : Int} {hits : List Fragment} {fragments : Fragments} {last next : Fragment}

theorem collects_nil (limit : Int) : Collects limit [] { limit := limit } where
  limit_eq := rfl
  last_eq := rfl
  count := rfl
  joins := by
    rw [show clusters [] = [] from rfl, List.take_nil]
    exact .nil
  beyond := fun less => absurd less (Nat.not_lt_zero _)

theorem InScanOrder.of_append
    {more : List Fragment}
    (inOrder : InScanOrder (hits ++ more)) :
    InScanOrder hits :=
  ⟨fun hit member => inOrder.forward hit (List.mem_append_left more member),
    inOrder.ordered.left_of_append⟩

theorem InScanOrder.behind
    (inOrder : InScanOrder (hits ++ [next]))
    (isLast : hits.getLast? = some last) :
    last.start ≤ next.start ∧ last.startLine ≤ next.startLine := by
  have forward := inOrder.forward last (List.mem_append_left _ (List.mem_of_getLast? isLast))
  have ordered := (List.isChain_append.mp inOrder.ordered).2.2 last isLast next rfl
  omega

/-- What lies behind a hit that is far behind another one is far behind that one. -/
theorem Fragment.FarBehind.of_behind
    {joined : Fragment}
    (far : last.FarBehind joined)
    (behind : last.start ≤ next.start ∧ last.startLine ≤ next.startLine) :
    next.FarBehind joined := by
  rw [Fragment.FarBehind] at far ⊢
  omega

namespace Fragments

/-- A fragment that is kept is put behind the others. -/
theorem toList_start_kept
    (kept : (fragments.count : Int) < fragments.limit) :
    (fragments.start next).toList = fragments.toList ++ [next] := by
  rw [start, if_pos kept]
  simp [toList]

/-- A fragment that is not kept changes nothing but the count. -/
theorem start_full
    (full : ¬ (fragments.count : Int) < fragments.limit) :
    fragments.start next = { fragments with count := fragments.count + 1 } := by
  rw [start, if_neg full]

theorem add_of_far
    (far : ∀ joined ∈ fragments.last, next.FarBehind joined) :
    fragments.add next = fragments.start next := by
  rw [add]
  cases isLast : fragments.last with
  | none => rfl
  | some joined =>
      have notClose : ¬ next.isCloseTo joined = true := fun close =>
        (isCloseTo_iff next joined).mp close (far joined isLast)
      exact if_neg notClose

theorem add_of_close
    {joined : Fragment}
    (isLast : fragments.last = some joined)
    (close : next.isCloseTo joined = true) :
    fragments.add next = { fragments with last := some (joined.join next) } := by
  rw [add, isLast]
  exact if_pos close

end Fragments

namespace Collects

/-- A hit far behind all that has been collected begins a cluster. -/
theorem start
    (collects : Collects limit hits fragments)
    (grown : clusters (hits ++ [next]) = clusters hits ++ [[next]])
    (far : ∀ joined ∈ fragments.last, next.FarBehind joined) :
    Collects limit (hits ++ [next]) (fragments.start next) := by
  have counted := collects.count
  by_cases kept : (fragments.count : Int) < fragments.limit
  · have started : (fragments.start next).last = some next ∧
        (fragments.start next).count = fragments.count + 1 ∧
        (fragments.start next).limit = fragments.limit := by
      rw [Fragments.start, if_pos kept]
      exact ⟨rfl, rfl, rfl⟩
    obtain ⟨last, count, sameLimit⟩ := started
    rw [collects.limit_eq] at kept
    have fewer : (clusters hits).length < limit.toNat := by omega
    refine ⟨sameLimit.trans collects.limit_eq, ?_, ?_, ?_, ?_⟩
    · rw [Fragments.toList_start_kept (collects.limit_eq ▸ kept), last, List.getLast?_concat]
    · rw [count, grown, List.length_append, List.length_singleton]
      omega
    · have joins := collects.joins
      rw [List.take_of_length_le (by omega)] at joins
      rw [Fragments.toList_start_kept (collects.limit_eq ▸ kept), grown,
        List.take_of_length_le (by rw [List.length_append, List.length_singleton]; omega)]
      exact List.rel_append joins (.cons (Joins.single next) .nil)
    · intro beyond
      rw [grown, List.length_append, List.length_singleton] at beyond
      omega
  · rw [Fragments.start_full kept]
    rw [collects.limit_eq] at kept
    have full : limit.toNat ≤ (clusters hits).length := by omega
    refine ⟨collects.limit_eq, collects.last_eq, ?_, ?_, ?_⟩
    · rw [grown, List.length_append, List.length_singleton]
      dsimp only
      omega
    · rw [grown, List.take_append_of_le_length full]
      exact collects.joins
    · intro _ joined isJoined last isLast
      rw [List.getLast?_concat, Option.mem_some_iff] at isLast
      exact isLast ▸ far joined isJoined

/-- A hit that belongs to a cluster which is not kept changes nothing. -/
theorem pass
    (collects : Collects limit hits fragments)
    (within : (clusters (hits ++ [next])).length = (clusters hits).length)
    (same : (clusters (hits ++ [next])).take limit.toNat = (clusters hits).take limit.toNat)
    (beyond : limit.toNat < (clusters hits).length)
    (far : ∀ joined ∈ fragments.last, next.FarBehind joined) :
    Collects limit (hits ++ [next]) (fragments.start next) := by
  have counted := collects.count
  have full : ¬ (fragments.count : Int) < fragments.limit := by
    rw [collects.limit_eq]
    omega
  rw [Fragments.start_full full]
  refine ⟨collects.limit_eq, collects.last_eq, ?_, ?_, ?_⟩
  · rw [within]
    dsimp only
    omega
  · rw [same]
    exact collects.joins
  · intro _ joined isJoined last isLast
    rw [List.getLast?_concat, Option.mem_some_iff] at isLast
    exact isLast ▸ far joined isJoined

/-- As long as all clusters are kept, the last fragment joins the last one of them. -/
theorem exists_joined
    {before : List (List Fragment)} {cluster : List Fragment}
    (collects : Collects limit hits fragments)
    (cut : clusters hits = before ++ [cluster])
    (kept : (clusters hits).length ≤ limit.toNat) :
    ∃ joined, fragments.last = some joined ∧ Joins cluster joined ∧
      List.Forall₂ Joins before fragments.earlier.reverse := by
  have joins := collects.joins
  rw [List.take_of_length_le kept, cut, Fragments.toList] at joins
  have reversed : before ++ [cluster] = (cluster :: before.reverse).reverse := by simp
  rw [reversed, List.forall₂_reverse_iff] at joins
  have lastEq := collects.last_eq
  rw [Fragments.toList, List.getLast?_reverse] at lastEq
  cases isLast : fragments.last with
  | none =>
      rw [isLast] at joins lastEq
      obtain ⟨joined, rest, -, -, listed⟩ := List.forall₂_cons_left_iff.mp joins
      rw [listed] at lastEq
      cases lastEq
  | some joined =>
      rw [isLast] at joins
      obtain ⟨here, others⟩ := List.forall₂_cons.mp joins
      refine ⟨joined, rfl, here, ?_⟩
      rw [← List.forall₂_reverse_iff, List.reverse_reverse]
      exact others

/-- A hit that belongs to the last cluster, which is kept, is joined to the last fragment. -/
theorem grow
    {before : List (List Fragment)} {cluster : List Fragment} {joined : Fragment}
    (collects : Collects limit hits fragments)
    (cut : clusters hits = before ++ [cluster])
    (grown : clusters (hits ++ [next]) = before ++ [cluster ++ [next]])
    (kept : (clusters hits).length ≤ limit.toNat)
    (joins : Joins cluster joined)
    (others : List.Forall₂ Joins before fragments.earlier.reverse) :
    Collects limit (hits ++ [next]) { fragments with last := some (joined.join next) } := by
  have within : (clusters (hits ++ [next])).length = (clusters hits).length := by
    rw [grown, cut, List.length_append, List.length_append, List.length_singleton,
      List.length_singleton]
  have listed : Fragments.toList { fragments with last := some (joined.join next) } =
      fragments.earlier.reverse ++ [joined.join next] := by
    simp [Fragments.toList]
  refine ⟨collects.limit_eq, ?_, ?_, ?_, ?_⟩
  · rw [listed, List.getLast?_concat]
  · rw [within]
    exact collects.count
  · rw [List.take_of_length_le (within ▸ kept), grown, listed]
    exact List.rel_append others (.cons (joins.append next) .nil)
  · intro beyond
    rw [within] at beyond
    omega

/-- One more hit. -/
theorem add
    (collects : Collects limit hits fragments)
    (inOrder : InScanOrder (hits ++ [next])) :
    Collects limit (hits ++ [next]) (fragments.add next) := by
  cases isLast : hits.getLast? with
  | none =>
      have none := List.getLast?_eq_none_iff.mp isLast
      subst none
      have noFragment : fragments.last = .none := by
        have joins := collects.joins
        rw [show clusters [] = [] from rfl, List.take_nil, List.forall₂_nil_left_iff] at joins
        rw [← collects.last_eq, joins]
        rfl
      have far : ∀ joined ∈ fragments.last, next.FarBehind joined := by
        rw [noFragment]
        exact fun joined absent => absurd absent (Option.not_mem_none joined)
      rw [Fragments.add_of_far far]
      exact collects.start rfl far
  | some last =>
      have behind := inOrder.behind isLast
      obtain ⟨before, cluster, cut, ends⟩ := exists_last_cluster isLast
      by_cases beyond : limit.toNat < (clusters hits).length
      · have far : ∀ joined ∈ fragments.last, next.FarBehind joined := fun joined isJoined =>
          (collects.beyond beyond joined isJoined last isLast).of_behind behind
        rw [Fragments.add_of_far far]
        by_cases apart : next.FarBehind last
        · exact collects.start (clusters_append_far isLast apart) far
        · have grown := clusters_append_near cut ends apart
          rw [cut, List.length_append, List.length_singleton] at beyond
          apply collects.pass
          · rw [grown, cut, List.length_append, List.length_append, List.length_singleton,
              List.length_singleton]
          · rw [grown, cut, List.take_append_of_le_length (Nat.le_of_lt_succ beyond),
              List.take_append_of_le_length (Nat.le_of_lt_succ beyond)]
          · rw [cut, List.length_append, List.length_singleton]
            exact beyond
          · exact far
      · have kept : (clusters hits).length ≤ limit.toNat := Nat.le_of_not_lt beyond
        obtain ⟨joined, isJoined, joins, others⟩ := collects.exists_joined cut kept
        by_cases apart : next.FarBehind last
        · have notClose : ¬ next.isCloseTo joined = true := fun close =>
            (joins.isCloseTo_iff ends).mp close apart
          have far : ∀ other ∈ fragments.last, next.FarBehind other := by
            intro other isOther
            rw [isJoined, Option.mem_some_iff] at isOther
            rw [← isOther]
            exact not_not.mp fun near => notClose ((isCloseTo_iff next joined).mpr near)
          rw [Fragments.add_of_far far]
          exact collects.start (clusters_append_far isLast apart) far
        · rw [Fragments.add_of_close isJoined ((joins.isCloseTo_iff ends).mpr apart)]
          exact collects.grow cut (clusters_append_near cut ends apart) kept joins others

end Collects

theorem collects_foldl
    (limit : Int)
    (inOrder : InScanOrder hits) :
    Collects limit hits (hits.foldl Fragments.add { limit := limit }) := by
  induction hits using List.reverseRecOn with
  | nil => exact collects_nil limit
  | append_singleton hits next inductionHypothesis =>
      rw [List.foldl_concat]
      exact (inductionHypothesis inOrder.of_append).add inOrder

/-- Hits in scan order are reported by the first of their clusters, as many as the limit allows,
each as one licence that nobody knows. -/
theorem findings_foldl_add
    (limit : Int)
    (inOrder : InScanOrder hits) :
    List.Forall₂ ReportsCluster ((clusters hits).take limit.toNat)
      (hits.foldl Fragments.add { limit := limit }).findings := by
  rw [Fragments.findings, List.forall₂_map_right_iff]
  apply (collects_foldl limit inOrder).joins.imp
  intro cluster joined joins
  exact ⟨rfl, rfl, joins⟩

end Collecting

/-- Two clusters are kept. A hit that is close in characters only and one that is close in lines
only belong to the first one; the last hit is close to a hit that is not kept any more. -/
theorem findings_foldl_add_sixHits :
    let a : Fragment := ⟨['a'], 1, 1, 0, 1⟩
    let b : Fragment := ⟨['b'], 8, 8, 100, 101⟩
    let c : Fragment := ⟨['c'], 12, 12, 500, 501⟩
    let d : Fragment := ⟨['d'], 40, 41, 900, 930⟩
    let e : Fragment := ⟨['e'], 90, 90, 2000, 2001⟩
    let f : Fragment := ⟨['f'], 91, 91, 2010, 2011⟩
    let hits := [a, b, c, d, e, f]
    InScanOrder hits ∧
      clusters hits = [[a, b, c], [d], [e, f]] ∧
      (hits.foldl Fragments.add { limit := 2 }).findings =
        [⟨.unknown, .license, "a...b...c".toList, 1, 12, 0, 501⟩,
          ⟨.unknown, .license, ['d'], 40, 41, 900, 930⟩] ∧
      List.Forall₂ ReportsCluster [[a, b, c], [d]]
        (hits.foldl Fragments.add { limit := 2 }).findings := by
  intro a b c d e f hits
  have inOrder : InScanOrder hits := ⟨by decide, by decide⟩
  have cut : clusters hits = [[a, b, c], [d], [e, f]] := by decide
  refine ⟨inOrder, cut, by decide, ?_⟩
  have reported := findings_foldl_add 2 inOrder
  rw [cut] at reported
  exact reported

end NoticeScan.Scan
