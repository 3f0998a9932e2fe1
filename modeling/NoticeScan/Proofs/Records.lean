import NoticeScan.Files.Records
import NoticeScan.Proofs.Alternation
import NoticeScan.Proofs.Encoded
import NoticeScan.Proofs.JsonText
import NoticeScan.Proofs.Saving

/-!
# Records that have been saved

Records that a text can hold are read back from the lines of the file in which they have been
saved. When a record is refused, nothing but folders has been made, and only where nothing stood;
so every file is as it was before.
-/

namespace NoticeScan

open NoticeScan.Text

/-! ## The bytes of a line -/

/-- A byte of seven bits occurs in the encoding of the character of its number only. -/
theorem Text.Utf8.mem_encodeChar_ascii
    {b : UInt8}
    {c : Char}
    (ascii : b.toNat < 0x80)
    (member : b ∈ Utf8.encodeChar c) :
    c = Char.ofNat b.toNat := by
  rw [Utf8.encodeChar_eq, List.mem_cons] at member
  rcases member with lead | tail
  · have same : Utf8.leadByte c.toNat = b.toNat := by
      rw [lead, Utf8.toNat_leadByte]
    have low : c.toNat = b.toNat := by
      unfold Utf8.leadByte at same
      split_ifs at same <;> omega
    rw [← low, Char.ofNat_toNat]
  · have high (count : Nat) : ∀ b ∈ Utf8.tailBytes c.toNat count, 0x80 ≤ b.toNat := by
      induction count with
      | zero => simp [Utf8.tailBytes]
      | succ count inductionHypothesis =>
          intro b member
          rcases List.mem_cons.mp member with rfl | later
          · rw [Utf8.toNat_tailByte]
            omega
          · exact inductionHypothesis b later
    exact absurd ascii (Nat.not_lt.mpr (high _ b tail))

theorem Text.Utf8.lineFeed_notMem_encode
    {text : List Char}
    (absent : '\n' ∉ text) :
    0x0A ∉ Utf8.encode text := by
  intro member
  obtain ⟨c, among, inside⟩ := List.mem_flatMap.mp member
  have same : c = '\n' := Utf8.mem_encodeChar_ascii (by decide) inside
  exact absent (same ▸ among)

theorem Text.Utf8.decode?_encode (text : List Char) :
    Utf8.decode? (Utf8.encode text) = some text := by
  rw [Utf8.decode?, Utf8.decode_encode, Utf8.chars?]
  induction text with
  | nil => rfl
  | cons c rest inductionHypothesis => simp [inductionHypothesis]

section Line

variable {record : Json}

theorem encode_line :
    Utf8.encode record.line = Utf8.encode record.print ++ [0x0A] := by
  have feed : Utf8.encode ['\n'] = [0x0A] := by decide
  rw [Json.line, ← feed, Utf8.encode, Utf8.encode, Utf8.encode, List.flatMap_append]

theorem Json.lineBytes?_of_exact (exact : record.Exact) :
    record.lineBytes? = some (Utf8.encode record.line) := by
  rw [lineBytes?, line?_of_exact exact, Option.map_some]

/-- The lines of some records in bytes are the bytes of their lines. -/
theorem Json.encode_lines? (records : List Json) :
    (lines? records).map Utf8.encode = (records.mapM lineBytes?).map List.flatten := by
  have parts : (records.mapM lineBytes?) = (records.mapM line?).map (List.map Utf8.encode) := by
    induction records with
    | nil => rfl
    | cons record rest inductionHypothesis =>
        rw [List.mapM_cons, List.mapM_cons, inductionHypothesis, lineBytes?]
        cases record.line? <;> cases rest.mapM line? <;> rfl
  rw [parts, lines?, Option.map_map, Option.map_map]
  refine congrArg (Option.map · _) (funext fun lines => ?_)
  induction lines with
  | nil => rfl
  | cons first rest inductionHypothesis =>
      rw [Function.comp_apply, Function.comp_apply] at *
      rw [List.flatten_cons, List.map_cons, List.flatten_cons, ← inductionHypothesis, Utf8.encode,
        Utf8.encode, Utf8.encode, List.flatMap_append]

/-- A line of a file has one line feed, which is at its end, and it holds the record with it and
without it. -/
theorem Json.ofBytes?_line (exact : record.Exact) :
    ofBytes? (Utf8.encode record.line) = some record ∧
      ∃ body, Utf8.encode record.line = body ++ [0x0A] ∧ 0x0A ∉ body ∧
        ofBytes? body = some record := by
  have alone := parseWith?_print exact closes_nil rfl
  rw [List.append_nil] at alone
  refine ⟨?_, Utf8.encode record.print, encode_line,
    Utf8.lineFeed_notMem_encode (lineFeed_notMem_print record), ?_⟩
  · rw [ofBytes?, Utf8.decode?_encode, Option.bind_some, parseWith?_line exact]
  · rw [ofBytes?, Utf8.decode?_encode, Option.bind_some, alone]

theorem count_lineFeed_lines (records : List Json) :
    ((records.map fun record => Utf8.encode record.line).flatten).count 0x0A =
      records.length := by
  induction records with
  | nil => rfl
  | cons record rest inductionHypothesis =>
      have before : (Utf8.encode record.print).count 0x0A = 0 :=
        List.count_eq_zero_of_not_mem
          (Utf8.lineFeed_notMem_encode (Json.lineFeed_notMem_print record))
      have once : (Utf8.encode record.line).count 0x0A = 1 := by
        simp [encode_line, before]
      simp [once, inductionHypothesis, Nat.add_comm]

end Line

namespace Files.Tree

variable {tree grown : Tree} {path : Path} {parts : List (List Char)} {place : Place}

/-! ## Trees that only grow -/

/-- Whatever stands in a tree still stands where it stood. -/
def Extends (tree grown : Tree) : Prop :=
  ∀ parts entry, tree.entry? parts = some entry → grown.entry? parts = some entry

theorem Extends.refl (tree : Tree) :
    Extends tree tree :=
  fun _ _ stands => stands

theorem Extends.trans
    {last : Tree}
    (first : Extends tree grown)
    (second : Extends grown last) :
    Extends tree last :=
  fun parts entry stands => second parts entry (first parts entry stands)

theorem Extends.grows (extended : Extends tree grown) :
    Grows tree grown where
  folder parts folder := extended parts .folder folder
  some parts stands := by
    obtain ⟨entry, here⟩ := Option.isSome_iff_exists.mp stands
    simp [extended parts entry here]

/-- Files are read as before in a tree that has only grown. -/
theorem Extends.read
    {bytes : List UInt8}
    (extended : Extends tree grown)
    (read : tree.read path = .ok bytes) :
    grown.read path = .ok bytes := by
  unfold Tree.read at read
  split at read
  · cases read
  · cases read
  · rename_i reached walked
    split at read
    · rename_i held here
      cases read
      obtain ⟨short, led⟩ := walk_eq_ok.mp walked
      have again : grown.walk path = .ok (.inside reached) :=
        walk_eq_ok.mpr ⟨short, extended.grows.walk led⟩
      simp [Tree.read, again, extended _ _ here]
    · cases read
    · cases read

theorem extends_add
    (parts : List (List Char))
    (entry : Entry) :
    Extends tree (tree.add parts entry) := by
  intro other held stands
  unfold entry? add at *
  split at stands
  · rename_i start
    rw [if_pos start]
    exact stands
  · rename_i below
    rw [if_neg below, List.lookup_append, stands, Option.some_or]

theorem extends_makeFolder (made : tree.makeFolder path = .ok grown) :
    Extends tree grown := by
  unfold makeFolder at made
  split at made
  · cases walked : tree.walk path <;> simp [walked, Except.bind] at made
  · split at made
    · cases made
    · cases made
      exact .refl tree
    · split at made
      · cases made
      · cases made
        exact extends_add _ _

theorem extends_orStanding
    {result : Except Error Tree}
    (made : ∀ made, result = .ok made → Extends tree made)
    (standing : tree.orStanding path result = .ok grown) :
    Extends tree grown := by
  cases result with
  | ok other =>
      cases standing
      exact made _ rfl
  | error error =>
      rw [orStanding] at standing
      split at standing
      · cases standing
        exact .refl tree
      · cases standing

theorem extends_ensureFolderAt
    {root : List Char}
    {reversed : List (List Char)}
    (ensured : ensureFolderAt root reversed tree = .ok grown) :
    Extends tree grown := by
  induction reversed generalizing grown with
  | nil =>
      cases ensured
      exact .refl tree
  | cons last above inductionHypothesis =>
      rw [ensureFolderAt] at ensured
      split at ensured
      · split at ensured
        · rename_i middle before
          exact (inductionHypothesis before).trans
            (extends_orStanding (fun made => extends_makeFolder) ensured)
        · cases ensured
      · exact extends_orStanding (fun made => extends_makeFolder) ensured

theorem extends_leftAt
    (root : List Char)
    (reversed : List (List Char)) :
    Extends tree (leftAt root reversed tree) := by
  induction reversed with
  | nil => exact .refl tree
  | cons last above inductionHypothesis =>
      rw [leftAt]
      split
      · split
        · rename_i middle before
          exact extends_ensureFolderAt before
        · exact inductionHypothesis
      · exact .refl tree

/-! ## Folders that stand already -/

theorem intersperse_prefix
    {α : Type}
    (between last : α)
    (front : List α) :
    front.intersperse between <+: (front ++ [last]).intersperse between := by
  induction front with
  | nil => exact List.nil_prefix
  | cons head rest inductionHypothesis =>
      cases rest with
      | nil => simp
      | cons next more => simpa using inductionHypothesis

/-- The path of a folder is not longer than that of what is in it. -/
theorem byteLength_parent_lt
    (some : path.parts ≠ [])
    (short : byteLength path.text < pathLimit) :
    byteLength path.parent.text < pathLimit := by
  by_cases nothing : path.parent.root.isEmpty && path.parent.parts.isEmpty
  · rw [Path.text, if_pos nothing]
    decide
  · have here : ¬ (path.root.isEmpty && path.parts.isEmpty) := by simp [some]
    have starts : path.parent.text <+: path.text := by
      rw [Path.text, if_neg nothing, Path.text, if_neg here, ← List.dropLast_append_getLast some]
      obtain ⟨more, whole⟩ := intersperse_prefix ['/'] (path.parts.getLast some) path.parts.dropLast
      refine ⟨more.flatten, ?_⟩
      simp only [Path.parent, List.intercalate, List.append_assoc, ← List.flatten_append, whole]
    obtain ⟨more, whole⟩ := starts
    rw [← whole, byteLength, Utf8.encode, List.flatMap_append, List.length_append] at short
    exact Nat.lt_of_le_of_lt (Nat.le_add_right _ _) short

/-- A walk leads through the folder of the path. -/
theorem walk_parent
    (some : path.parts ≠ [])
    (walked : tree.walk path = .ok place) :
    ∃ above, tree.walk path.parent = .ok above ∧
      tree.enter above (path.parts.getLast some) = .ok place := by
  obtain ⟨short, led⟩ := walk_eq_ok.mp walked
  rw [← List.dropLast_append_getLast some, List.foldlM_append] at led
  cases before : path.parts.dropLast.foldlM tree.enter
      (if path.root.isEmpty then .inside [] else .outside) with
  | error error =>
      rw [before] at led
      cases led
  | ok above =>
      rw [before] at led
      have entered : (tree.enter above (path.parts.getLast some) >>= pure) = .ok place := led
      rw [bind_pure] at entered
      exact ⟨above, walk_eq_ok.mpr ⟨byteLength_parent_lt some short, before⟩, entered⟩

/-- Only a folder can be entered. -/
theorem isFolder_of_enter
    {part : List Char}
    {last : Place}
    (walked : tree.walk path = .ok place)
    (entered : tree.enter place part = .ok last) :
    tree.isFolder path = true := by
  rw [isFolder, walked]
  cases place with
  | outside => rfl
  | inside parts =>
      unfold enter at entered
      dsimp only at entered
      split at entered
      · cases entered
      · rename_i folder
        simpa using folder

theorem enter_named
    {part : List Char}
    {last : Place}
    (named : part ≠ upward)
    (entered : tree.enter place part = .ok last) :
    ∃ above, place = .inside above ∧ tree.entry? above = some .folder ∧
      byteLength part ≤ nameLimit ∧ (tree.entry? (above ++ [part])).isSome = true := by
  unfold enter at entered
  cases place with
  | outside => simp [named] at entered
  | inside above =>
      dsimp only at entered
      split at entered
      · cases entered
      · rename_i folder
        split at entered
        · cases entered
        · rename_i brief
          split at entered
          · rename_i stands
            exact ⟨above, rfl, not_not.mp folder, Nat.le_of_not_lt brief, stands⟩
          · cases entered

/-- No folder is made where there is one. -/
theorem makeFolder_of_isFolder
    (standing : tree.isFolder path = true) :
    tree.makeFolder path = .error .exists := by
  cases walked : tree.walk path with
  | error error => simp [isFolder, walked] at standing
  | ok place =>
      cases named : lastName? path with
      | none => simp [makeFolder, named, walked, Except.bind]
      | some last =>
          obtain ⟨parts, down⟩ := lastName?_eq_some named
          have some : path.parts ≠ [] := by
            rw [parts]
            simp
          obtain ⟨above, before, entered⟩ := walk_parent some walked
          have ends : path.parts.getLast some = last :=
            (List.getLast_congr some (by simp) parts).trans (List.getLast_append_singleton _)
          rw [ends] at entered
          obtain ⟨front, rfl, folder, brief, stands⟩ := enter_named down entered
          have short := (walk_eq_ok.mp walked).1
          have free : tree.site path last = .ok (.inside (front ++ [last])) := by
            simp [site, Nat.not_le.mpr short, before, folder, Nat.not_lt.mpr brief]
          simp [makeFolder, named, free, stands]

theorem ensureFolder_of_isFolder
    (standing : tree.isFolder path = true) :
    tree.ensureFolder path = .ok tree := by
  rw [ensureFolder]
  cases reversed : path.parts.reverse with
  | nil => rfl
  | cons last above =>
      have same : (⟨path.root, (last :: above).reverse⟩ : Path) = path := by
        rw [← reversed, List.reverse_reverse]
      rw [ensureFolderAt]
      simp only [same, makeFolder_of_isFolder standing]
      simp [orStanding, standing]

/-- Where a file stands, its folder stands as well. -/
theorem isFolder_parent_of_read
    {bytes : List UInt8}
    (read : tree.read path = .ok bytes) :
    tree.isFolder path.parent = true := by
  unfold Tree.read at read
  split at read
  · cases read
  · cases read
  · rename_i reached walked
    have some : path.parts ≠ [] := by
      intro none
      obtain ⟨-, led⟩ := walk_eq_ok.mp walked
      rw [none] at led
      split at led
      · cases led
        simp [ entry?] at read
      · cases led
    obtain ⟨above, before, entered⟩ := walk_parent some walked
    exact isFolder_of_enter before entered

/-! ## Saving -/

/-- Whether a file can be saved at a path does not depend on what is in it. -/
theorem save_of_save
    {bytes : List UInt8}
    (saved : tree.save path bytes = .ok grown)
    (others : List UInt8) :
    ∃ written, tree.save path others = .ok written := by
  unfold save at *
  split at saved
  · cases saved
  · rename_i middle ensured
    unfold write at *
    split at saved
    · cases walked : middle.walk path <;> simp [walked, Except.bind] at saved
    · split at saved
      · cases saved
      · exact ⟨_, rfl⟩
      · split at saved
        · cases saved
        · rename_i noFolder
          exact ⟨_, if_neg noFolder⟩

section Lines

variable {α β : Type} {line? : α → Option (List UInt8)} {records : List α}

theorem mapM_eq_some
    {f : α → Option β}
    {g : α → β}
    {list : List α}
    (each : ∀ item ∈ list, f item = some (g item)) :
    list.mapM f = some (list.map g) := by
  induction list with
  | nil => rfl
  | cons head rest inductionHypothesis =>
      rw [List.forall_mem_cons] at each
      simp [each.1, inductionHypothesis each.2]

/-- If the lines of all records are known, saving the records is saving the lines. -/
theorem saveRecords_of_save
    {lines : List (List UInt8)}
    (written : records.mapM line? = some lines)
    (saved : tree.save path lines.flatten = .ok grown) :
    tree.saveRecords line? path records = (.ok (), grown) := by
  unfold save at saved
  split at saved
  · cases saved
  · rename_i middle ensured
    simp [saveRecords, ensured, written, saved]

/-- If a record is refused, saving fails before the file is written, and at most folders have been
made. -/
theorem saveRecords_of_refused
    (refused : ∃ record ∈ records, line? record = none) :
    ∃ error left, tree.saveRecords line? path records = (.error error, left) ∧
      Extends tree left ∧ (tree.isFolder path.parent = true → error = .refused ∧ left = tree) := by
  obtain ⟨record, member, none⟩ := refused
  have noLines : records.mapM line? = .none := Regex.mapM_eq_none member none
  cases ensured : tree.ensureFolder path.parent with
  | error error =>
      refine ⟨.file error, leftAt path.root path.parent.parts.reverse tree,
        by simp [saveRecords, ensured], extends_leftAt _ _, ?_⟩
      intro standing
      rw [ensureFolder_of_isFolder standing] at ensured
      cases ensured
  | ok grown =>
      refine ⟨.refused, grown, by simp [saveRecords, ensured, noLines],
        extends_ensureFolderAt ensured, ?_⟩
      intro standing
      rw [ensureFolder_of_isFolder standing] at ensured
      cases ensured
      exact ⟨rfl, rfl⟩

end Lines

/-- Records that a text can hold are saved one to a line wherever a file can be saved: the file has
as many line feeds as there are records, one at the end of each of them, and each line is read as
its record. If a record is refused, whatever it is that puts records into lines, saving fails and
all files stay as they were; where there is one at the path, nothing has changed at all. -/
theorem saveRecords_roundTrip (tree : Tree) (path : Path) :
    (∀ bytes grown, tree.save path bytes = .ok grown → staysInside path = true →
      ∀ records : List Json, (∀ record ∈ records, record.Exact) →
        ∃ lines left,
          tree.saveRecords Json.lineBytes? path records = (.ok (), left) ∧
          left.read path = .ok lines.flatten ∧
          lines.flatten.count 0x0A = records.length ∧
          List.Forall₂
            (fun record line => Json.ofBytes? line = some record ∧
              ∃ body, line = body ++ [0x0A] ∧ 0x0A ∉ body ∧ Json.ofBytes? body = some record)
            records lines) ∧
    ∀ {α : Type} (line? : α → Option (List UInt8)) (records : List α),
      (∃ record ∈ records, line? record = none) →
        ∃ error left,
          tree.saveRecords line? path records = (.error error, left) ∧
          (∀ other bytes, tree.read other = .ok bytes → left.read other = .ok bytes) ∧
          ∀ bytes, tree.read path = .ok bytes → error = .refused ∧ left = tree := by
  constructor
  · intro bytes grown free inside records exact
    have written : records.mapM Json.lineBytes? =
        some (records.map fun record => Utf8.encode record.line) :=
      mapM_eq_some fun record member => Json.lineBytes?_of_exact (exact record member)
    obtain ⟨left, saved⟩ := save_of_save free
      (records.map fun record => Utf8.encode record.line).flatten
    refine ⟨_, left, saveRecords_of_save written saved, read_save saved inside,
      count_lineFeed_lines records, ?_⟩
    rw [List.forall₂_map_right_iff, List.forall₂_same]
    exact fun record member => Json.ofBytes?_line (exact record member)
  · intro α line? records refused
    obtain ⟨error, left, saved, extended, standing⟩ := saveRecords_of_refused refused
    exact ⟨error, left, saved, fun other bytes => extended.read,
      fun bytes read => standing (isFolder_parent_of_read read)⟩

/-- Two records in a new folder, one of them with a line feed in it; and two in the place of a file,
one of them too great for a line. -/
theorem saveRecords_roundTrip_sample :
    (∃ (lines : List (List UInt8)) (left : Tree),
      ({} : Tree).saveRecords Json.lineBytes? (Path.ofText "out/r".toList)
        [.object [("a\n\"", .string "\n\\")], .array [.int (-5), .null]] = (.ok (), left) ∧
      left.read (Path.ofText "out/r".toList) = .ok lines.flatten ∧ lines.flatten.count 0x0A = 2) ∧
    (Tree.mk [(["r".toList], .file [0x78])]).saveRecords Json.lineBytes? (Path.ofText "r".toList)
      [.null, .int 18446744073709551616] =
        (.error .refused, Tree.mk [(["r".toList], .file [0x78])]) := by
  constructor
  · have free : ({} : Tree).save (Path.ofText "out/r".toList) [] =
        .ok ⟨[(["out".toList], .folder), (["out".toList, "r".toList], .file [])]⟩ := by
      decide +kernel
    have exact : ∀ record ∈
        [Json.object [("a\n\"", .string "\n\\")], Json.array [.int (-5), .null]],
        record.Exact := by
      simp only [List.forall_mem_cons, List.not_mem_nil, false_implies, implies_true, and_true]
      refine ⟨.object (by simp) ?_, .array ?_⟩
      · simpa using Json.Exact.string _
      · simpa using ⟨Json.Exact.int (by decide), Json.Exact.null⟩
    obtain ⟨lines, left, ran, read, count, -⟩ :=
      (saveRecords_roundTrip {} (Path.ofText "out/r".toList)).1 [] _ free (by decide +kernel)
        _ exact
    exact ⟨lines, left, ran, read, count⟩
  · obtain ⟨error, left, ran, -, standing⟩ :=
      (saveRecords_roundTrip (Tree.mk [(["r".toList], .file [0x78])])
        (Path.ofText "r".toList)).2 Json.lineBytes? [.null, .int 18446744073709551616]
        ⟨.int 18446744073709551616, by simp, rfl⟩
    obtain ⟨rfl, rfl⟩ := standing [0x78] (by decide +kernel)
    exact ran

end Files.Tree

end NoticeScan
