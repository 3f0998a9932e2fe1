import NoticeScan.Proofs.Contributions
import NoticeScan.Proofs.RulesFiles

/-!
# Reports on rules files

What a rules file asks for and all that is wrong with it, said field by field and without an order
in which things are done. A file with problems is refused with a list of all of them, and no
problem hides another one or changes what is looked at; a file without problems is read as what it
asks for.
-/

namespace NoticeScan.Config

/-! ## What a rules file says -/

/-- The field that lists names of rules in a role. -/
def roleKey : Role → String
  | .first => "first_party"
  | .third => "third_party"
  | .forbidden => "forbidden"

/-- The field that lists names of rules to be excluded. -/
def excludeKey : String :=
  "exclude"

/-- The fields that list names, in order. -/
def nameKeys : List String :=
  [roleKey .first, roleKey .third, roleKey .forbidden, excludeKey]

/-- A field lists strings; one that is missing, or is no list of strings, lists none. -/
@[mk_iff]
inductive Lists (fields : List (String × Json)) (key : String) : List String → Prop
  | strings {list : List String} (there : (key, .array (list.map .string)) ∈ fields) :
      Lists fields key list
  | nothing (none : ∀ list : List String, (key, .array (list.map .string)) ∉ fields) :
      Lists fields key []

/-- The fields of names that are not known, in ascending order of the names. -/
structure Strangers (fields strangers : List (String × Json)) : Prop where
  mem_iff (field : String × Json) :
    field ∈ strangers ↔ field ∈ fields ∧ field.1 ∉ knownKeys
  ascending : strangers.Pairwise fun one other => one.1 < other.1

/-- What is said of a field that should list strings: that it does not, or `remarks` on the
strings. -/
@[mk_iff]
inductive Remarks (fields : List (String × Json)) (key : String)
    (remarks : List String → List Issue) : List Issue → Prop
  | missing (absent : ∀ value, (key, value) ∉ fields) : Remarks fields key remarks []
  | notStrings {value : Json} (there : (key, value) ∈ fields)
      (other : ∀ list : List String, value ≠ .array (list.map .string)) :
      Remarks fields key remarks [⟨key, value, .notStrings⟩]
  | strings {list : List String} (there : (key, .array (list.map .string)) ∈ fields) :
      Remarks fields key remarks (remarks list)

/-- The remarks on names: each one that is not in the catalogue is unknown. -/
def unknownNames (key : String) (list : List String) : List Issue :=
  (list.filter fun name => name ∉ Catalogue.names).map fun name =>
    ⟨key, .string name, .unknownName ⟨name, Catalogue.suggestions name⟩⟩

/-- Whether third-party findings are allowed, and what is said of the field that tells so. -/
@[mk_iff]
inductive Permits (fields : List (String × Json)) : Bool → List Issue → Prop
  | missing (absent : ∀ value, (permissionKey, value) ∉ fields) : Permits fields false []
  | given {value : Bool} (there : (permissionKey, .bool value) ∈ fields) :
      Permits fields value []
  | other {value : Json} (there : (permissionKey, value) ∈ fields)
      (noTruthValue : ∀ truth, value ≠ .bool truth) :
      Permits fields false [⟨permissionKey, value, .notTruthValue⟩]

/-- The names and patterns that a rules file lists. -/
structure Wishes where
  named : Role → List String
  excluded : List String
  own : Section → List String

/-- The names and patterns are those of some fields. -/
structure Wishes.Of (fields : List (String × Json)) (wishes : Wishes) : Prop where
  named (role : Role) : Lists fields (roleKey role) (wishes.named role)
  excluded : Lists fields excludeKey wishes.excluded
  own (place : Section) : Lists fields place.key (wishes.own place)

/-- The rules of those names that are in the catalogue. -/
def members (names : List String) : List Rule :=
  names.filterMap fun name => Catalogue.entries.lookup name

/-- A rule set has in each list the patterns of the members of the catalogue that are named, and
then the file's own ones. -/
structure Wishes.Meets (wishes : Wishes) (rules : RuleSet) : Prop where
  licenses (role : Role) :
    rules.get (.licenses role) =
      (members (wishes.named role)).flatMap Rule.licenses ++ wishes.own (.licenses role)
  owners (role : Role) :
    rules.get (.owners role) =
      (members (wishes.named role)).flatMap Rule.owners ++ wishes.own (.owners role)
  exclusions :
    rules.get .exclusions =
      [Role.first, .third, .forbidden].flatMap
          (fun role => (members (wishes.named role)).flatMap Rule.exclusions) ++
        (members wishes.excluded).flatMap
          (fun rule => rule.owners ++ rule.licenses ++ rule.exclusions) ++
        wishes.own .exclusions

/-- The rules and the permission that some fields ask for, and all that is wrong with the fields,
in order: fields of unknown names, lists of names, lists of patterns, the permission, and the
patterns themselves. -/
structure Report (fields : List (String × Json)) (config : Config) (problems : List Issue) :
    Prop where
  rules : ∃ wishes : Wishes, wishes.Of fields ∧ wishes.Meets config.rules
  problems : ∃ (strangers : List (String × Json)) (named own : List (List Issue))
      (permission : List Issue) (found : List RuleSet.Issue),
    Strangers fields strangers ∧
      List.Forall₂ (fun key => Remarks fields key (unknownNames key)) nameKeys named ∧
      List.Forall₂ (fun key => Remarks fields key fun _ => []) (Section.all.map Section.key) own ∧
      Permits fields config.thirdPartyAllowed permission ∧
      config.rules.issues = .ok found ∧
      problems = strangers.map (fun field => ⟨field.1, field.2, .unknownKey⟩) ++
        named.flatten ++ own.flatten ++ permission ++
          found.map fun issue =>
            ⟨issue.place.key, .string issue.rejection.pattern, .pattern issue.rejection⟩

/-! ## Fields of an object -/

theorem mapM_asString?_eq_some {items : List Json} {list : List String} :
    items.mapM Json.asString? = some list ↔ items = list.map .string := by
  induction items generalizing list with
  | nil => cases list <;> simp
  | cons item rest inductionHypothesis =>
      cases item with
      | string text =>
          cases list <;>
            simp [Json.asString?, Option.bind_eq_some_iff, inductionHypothesis, and_comm]
      | _ => cases list <;> simp [Json.asString?]

theorem asStrings?_eq_some {value : Json} {list : List String} :
    value.asStrings? = some list ↔ value = .array (list.map .string) := by
  cases value <;> simp [Json.asStrings?, Json.asArray?, mapM_asString?_eq_some]

section Fields

variable {fields : List (String × Json)} {key : String}

/-- In an object, whose fields have different names, a field is found exactly if it is there. -/
theorem lookup_eq_some_iff
    (distinct : (fields.map Prod.fst).Nodup)
    {value : Json} :
    fields.lookup key = some value ↔ (key, value) ∈ fields := by
  induction fields with
  | nil => simp
  | cons field rest inductionHypothesis =>
      obtain ⟨name, held⟩ := field
      rw [List.map_cons, List.nodup_cons] at distinct
      by_cases same : key = name
      · subst same
        have elsewhere : (key, value) ∉ rest := fun member =>
          distinct.1 (List.mem_map.mpr ⟨_, member, rfl⟩)
        simp [elsewhere, eq_comm]
      · have apart : (key == name) = false := by simpa using same
        simp [List.lookup_cons, apart, same, inductionHypothesis distinct.2]

theorem lists_strings_iff
    (distinct : (fields.map Prod.fst).Nodup)
    (field : StepField)
    (list : List String) :
    Lists fields field.key list ↔ list = (field.strings? fields).getD [] := by
  simp only [lists_iff, ← lookup_eq_some_iff distinct]
  unfold StepField.strings?
  cases fields.lookup field.key with
  | none => simp
  | some value =>
      simp only [Option.some_inj, ← asStrings?_eq_some]
      cases value.asStrings? <;> simp [eq_comm]

/-- What is said of a field that lists strings is what reading it complains of. -/
theorem remarks_issues_iff
    (distinct : (fields.map Prod.fst).Nodup)
    {field : StepField}
    {remarks : List String → List Issue}
    (each : ∀ list, remarks list = list.filterMap fun text =>
      (unknownName? (field.step text)).map fun unknown =>
        ⟨field.key, .string text, .unknownName unknown⟩)
    (part : List Issue) :
    Remarks fields field.key remarks part ↔ part = field.issues fields := by
  simp only [remarks_iff, ← lookup_eq_some_iff distinct]
  unfold StepField.issues StepField.strings?
  cases fields.lookup field.key with
  | none => simp
  | some value =>
      simp only [Option.some_inj, ne_eq, ← asStrings?_eq_some]
      cases strings : value.asStrings? <;> simp [each, strings]

theorem permits_iff_permission
    (distinct : (fields.map Prod.fst).Nodup)
    (permitted : Bool)
    (part : List Issue) :
    Permits fields permitted part ↔
      permitted = permission fields ∧ part = permissionIssues fields := by
  simp only [permits_iff, ← lookup_eq_some_iff distinct]
  unfold permission permissionIssues
  cases fields.lookup permissionKey with
  | none => simp
  | some value => cases value <;> simp [Json.asBool?, eq_comm]

/-! ## Fields of unknown names -/

theorem Strangers.unique
    {one other : List (String × Json)}
    (first : Strangers fields one)
    (second : Strangers fields other) :
    one = other := by
  have nodup {list : List (String × Json)} (strangers : Strangers fields list) : list.Nodup :=
    strangers.ascending.imp fun less same => (same ▸ less).false
  have sameMembers : one.Perm other := by
    rw [List.perm_ext_iff_of_nodup (nodup first) (nodup second)]
    intro field
    rw [first.mem_iff, second.mem_iff]
  exact sameMembers.eq_of_pairwise (fun _ _ _ _ less more => absurd less more.not_gt)
    first.ascending second.ascending

theorem exists_strangers
    (distinct : (fields.map Prod.fst).Nodup) :
    ∃ strangers, Strangers fields strangers ∧
      unknownKeyIssues fields = strangers.map fun field => ⟨field.1, field.2, .unknownKey⟩ := by
  let unknown := fields.filter fun field => !knownKeys.contains field.1
  let strangers := unknown.mergeSort fun one other => decide (one.1 ≤ other.1)
  have same : strangers.Perm unknown := List.mergeSort_perm _ _
  refine ⟨strangers, ⟨?_, ?_⟩, rfl⟩
  · intro field
    simp [same.mem_iff, unknown]
  · have sorted : strangers.Pairwise fun one other => decide (one.1 ≤ other.1) = true :=
      List.pairwise_mergeSort (fun _ _ _ => by simpa using le_trans)
        (fun one other => by simpa using le_total one.1 other.1) _
    have apart : strangers.Pairwise fun one other => one.1 ≠ other.1 := by
      have names : (unknown.map Prod.fst).Nodup := distinct.sublist (List.filter_sublist.map _)
      exact List.pairwise_map.mp ((same.map Prod.fst).nodup_iff.mpr names)
    exact (sorted.and apart).imp fun ⟨le, ne⟩ => lt_of_le_of_ne (by simpa using le) ne

end Fields

/-! ## Names and patterns -/

theorem unknownNames_eq
    {field : StepField}
    (listed : field ∈ nameFields)
    (list : List String) :
    unknownNames field.key list = list.filterMap fun text =>
      (unknownName? (field.step text)).map fun unknown =>
        ⟨field.key, .string text, .unknownName unknown⟩ := by
  simp only [unknownName?_nameField listed, unknownNames]
  induction list with
  | nil => rfl
  | cons name rest inductionHypothesis =>
      by_cases known : name ∈ Catalogue.names <;> simp_all

theorem noRemarks_eq
    {field : StepField}
    (listed : field ∈ patternFields)
    (list : List String) :
    [] = list.filterMap fun text => (unknownName? (field.step text)).map fun unknown =>
      (⟨field.key, .string text, .unknownName unknown⟩ : Issue) := by
  simp [unknownName?_patternField listed]

/-- A relation that is a function on the items of a list relates the list to its image only. -/
theorem forall₂_iff_map
    {α β : Type}
    {relation : α → β → Prop}
    {function : α → β}
    {list : List α}
    (each : ∀ item ∈ list, ∀ image, relation item image ↔ image = function item)
    (images : List β) :
    List.Forall₂ relation list images ↔ images = list.map function := by
  induction list generalizing images with
  | nil => simp
  | cons item rest inductionHypothesis =>
      have later := inductionHypothesis fun other member =>
        each other (List.mem_cons_of_mem _ member)
      cases images <;> simp [each item List.mem_cons_self, later]

/-! ## What is asked for -/

section Wishes

variable {fields : List (String × Json)} {wishes : Wishes} {one other : RuleSet}

/-- The names and patterns of some fields. -/
def wishesOf (fields : List (String × Json)) : Wishes where
  named role := (StepField.strings? ⟨roleKey role, .add role⟩ fields).getD []
  excluded := (StepField.strings? ⟨excludeKey, .exclude⟩ fields).getD []
  own place := (StepField.strings? ⟨place.key, .pattern place⟩ fields).getD []

theorem of_iff_wishesOf
    (distinct : (fields.map Prod.fst).Nodup) :
    wishes.Of fields ↔ wishes = wishesOf fields := by
  have lists (field : StepField) := lists_strings_iff distinct field
  constructor
  · rintro ⟨named, excluded, own⟩
    cases wishes
    rw [Wishes.mk.injEq]
    exact ⟨funext fun role => (lists ⟨_, .add role⟩ _).mp (named role),
      (lists ⟨_, .exclude⟩ _).mp excluded,
      funext fun place => (lists ⟨_, .pattern place⟩ _).mp (own place)⟩
  · rintro rfl
    exact ⟨fun role => (lists ⟨_, .add role⟩ _).mpr rfl, (lists ⟨_, .exclude⟩ _).mpr rfl,
      fun place => (lists ⟨_, .pattern place⟩ _).mpr rfl⟩

theorem Wishes.Meets.unique
    (first : wishes.Meets one)
    (second : wishes.Meets other) :
    one = other := by
  apply RuleSet.eq_of_get
  intro place
  cases place with
  | licenses role => rw [first.licenses, second.licenses]
  | owners role => rw [first.owners, second.owners]
  | exclusions => rw [first.exclusions, second.exclusions]

theorem flatMap_members (names : List String) (patterns : Rule → List String) :
    (names.flatMap fun name => (Catalogue.entries.lookup name).toList.flatMap patterns) =
      (members names).flatMap patterns := by
  rw [members, List.filterMap_eq_flatMap_toList, List.flatMap_assoc]

theorem flatMap_nothing {α β : Type} (list : List α) :
    (list.flatMap fun _ => ([] : List β)) = [] :=
  List.flatMap_eq_nil_iff.mpr fun _ _ => rfl

theorem flatMap_own (own : Section → List String) (place : Section) :
    (Section.all.flatMap fun other =>
      (own other).flatMap fun text => if other = place then [text] else []) = own place := by
  rcases place with (_ | _ | _) | (_ | _ | _) | _ <;> simp [Section.all, flatMap_nothing]

/-- Each list is put together from what the names and patterns of all fields contribute. -/
theorem get_rulesOf (fields : List (String × Json)) (place : Section) :
    (rulesOf fields).get place =
      [Role.first, .third, .forbidden].flatMap
          (fun role => (members ((wishesOf fields).named role)).flatMap (·.inRole role place)) ++
        (members (wishesOf fields).excluded).flatMap (·.excluded place) ++
        (wishesOf fields).own place := by
  rw [rulesOf, RuleSet.get_run, ← flatMap_own (wishesOf fields).own place]
  simp [stepFields, nameFields, patternFields, StepField.steps, List.flatMap_assoc,
    List.flatMap_map, RuleSet.Step.contribution, flatMap_members, wishesOf, roleKey, excludeKey]

theorem meets_rulesOf (fields : List (String × Json)) :
    (wishesOf fields).Meets (rulesOf fields) where
  licenses role := by
    rw [get_rulesOf]
    cases role <;> simp [Rule.inRole, Rule.excluded, flatMap_nothing]
  owners role := by
    rw [get_rulesOf]
    cases role <;> simp [Rule.inRole, Rule.excluded, flatMap_nothing]
  exclusions := get_rulesOf fields .exclusions

end Wishes

/-! ## Reports -/

section Reports

variable {fields : List (String × Json)}

theorem remarks_names_iff
    (distinct : (fields.map Prod.fst).Nodup)
    (named : List (List Issue)) :
    List.Forall₂ (fun key => Remarks fields key (unknownNames key)) nameKeys named ↔
      named = nameFields.map fun field => field.issues fields := by
  have keys : nameKeys = nameFields.map StepField.key := rfl
  rw [keys, List.forall₂_map_left_iff]
  exact forall₂_iff_map (fun field listed => remarks_issues_iff distinct (unknownNames_eq listed))
    named

theorem remarks_patterns_iff
    (distinct : (fields.map Prod.fst).Nodup)
    (own : List (List Issue)) :
    List.Forall₂ (fun key => Remarks fields key fun _ => []) (Section.all.map Section.key) own ↔
      own = patternFields.map fun field => field.issues fields := by
  have keys : Section.all.map Section.key = patternFields.map StepField.key := rfl
  rw [keys, List.forall₂_map_left_iff]
  exact forall₂_iff_map (fun field listed => remarks_issues_iff distinct (noRemarks_eq listed)) own

/-- Reading the fields of an object complains of what a report on them lists. -/
theorem report_iff
    (distinct : (fields.map Prod.fst).Nodup)
    {found : List RuleSet.Issue}
    (checked : (rulesOf fields).issues = .ok found)
    (config : Config)
    (problems : List Issue) :
    Report fields config problems ↔
      config = ⟨rulesOf fields, permission fields⟩ ∧
        problems = fieldIssues fields ++ found.map patternIssue := by
  obtain ⟨strangers, isStrangers, unknown⟩ := exists_strangers distinct
  have whole : fieldIssues fields =
      strangers.map (fun field => ⟨field.1, field.2, .unknownKey⟩) ++
        (nameFields.map fun field => field.issues fields).flatten ++
        (patternFields.map fun field => field.issues fields).flatten ++
        permissionIssues fields := by
    simp [fieldIssues, unknown, stepFields, List.flatMap_def]
  constructor
  · rintro ⟨⟨wishes, of, meets⟩, others, named, own, permission, list, isOthers, remarks, noRemarks,
      permits, issues, rfl⟩
    rw [of_iff_wishesOf distinct] at of
    subst of
    have rules := meets.unique (meets_rulesOf fields)
    obtain ⟨permitted, rfl⟩ := (permits_iff_permission distinct _ _).mp permits
    rw [rules, checked, Except.ok.injEq] at issues
    rw [(remarks_names_iff distinct named).mp remarks,
      (remarks_patterns_iff distinct own).mp noRemarks, isOthers.unique isStrangers, ← issues, whole]
    refine ⟨?_, rfl⟩
    cases config
    rw [Config.mk.injEq]
    exact ⟨rules, permitted⟩
  · rintro ⟨rfl, rfl⟩
    refine ⟨⟨wishesOf fields, (of_iff_wishesOf distinct).mpr rfl, meets_rulesOf fields⟩, strangers,
      _, _, _, found, isStrangers, (remarks_names_iff distinct _).mpr rfl,
      (remarks_patterns_iff distinct _).mpr rfl,
      (permits_iff_permission distinct _ _).mpr ⟨rfl, rfl⟩, checked, ?_⟩
    rw [whole]
    rfl

/-- A rules file whose patterns do not break the compiler is refused exactly if there are problems,
with all of them and in their order, and read as what it asks for if there are none. -/
theorem ofJson_reports
    (distinct : (fields.map Prod.fst).Nodup)
    (whole : ¬ (rulesOf fields).Breaks) :
    ∃ config problems,
      (∀ other list, Report fields other list ↔ other = config ∧ list = problems) ∧
        ofJson (.object fields) =
          if problems.isEmpty then .ok config else .error (.issues problems) := by
  rcases (rulesOf fields).issues_cases with ⟨error, -, breaks⟩ | ⟨found, checked, -, -⟩
  · exact absurd breaks whole
  · refine ⟨_, _, report_iff distinct checked, ?_⟩
    rw [ofJson, ofFields]
    simp only [checked]
    cases fieldIssues fields ++ found.map patternIssue with
    | nil => simp
    | cons issue rest => simp

/-- Fields with a problem of each kind, and a name of the catalogue between them. -/
def sampleFields : List (String × Json) :=
  [ ("zeta", .null),
    ("first_party", .array [.string "BEER_WARE", .string "MTT"]),
    ("third_party", .int 1),
    ("forbidden_owners", .array [.string "(Evil) Corp"]),
    ("alpha", .bool true),
    ("third_party_allowed", .string "yes") ]

/-- What is wrong with them. -/
def sampleProblems : List Issue :=
  [ ⟨"alpha", .bool true, .unknownKey⟩,
    ⟨"zeta", .null, .unknownKey⟩,
    ⟨"first_party", .string "MTT", .unknownName ⟨"MTT", ["MIT"]⟩⟩,
    ⟨"third_party", .int 1, .notStrings⟩,
    ⟨"third_party_allowed", .string "yes", .notTruthValue⟩,
    ⟨"forbidden_owners", .string "(Evil) Corp",
      .pattern ⟨"(Evil) Corp", .problem ⟨.capture, 0⟩⟩⟩ ]

theorem strangers_sampleFields :
    Strangers sampleFields [("alpha", .bool true), ("zeta", .null)] where
  mem_iff field := by
    have known : ["first_party", "third_party", "forbidden_owners", "third_party_allowed"] ⊆
        knownKeys := by decide +kernel
    have unknown : "alpha" ∉ knownKeys ∧ "zeta" ∉ knownKeys := by decide +kernel
    simp only [List.cons_subset] at known
    simp only [sampleFields, List.mem_cons, List.not_mem_nil, or_false]
    grind
  ascending := by
    have less : "alpha" < "zeta" := by decide +kernel
    simpa using less

theorem issues_sampleFields :
    (rulesOf sampleFields).issues =
      .ok [⟨⟨"(Evil) Corp", .problem ⟨.capture, 0⟩⟩, .owners .forbidden⟩] := by
  decide +kernel

theorem unknownNames_sampleFields :
    unknownNames "first_party" ["BEER_WARE", "MTT"] =
      [⟨"first_party", .string "MTT", .unknownName ⟨"MTT", ["MIT"]⟩⟩] := by
  have nearest : Catalogue.suggestions "MTT" = ["MIT"] := by decide +kernel
  have known : "BEER_WARE" ∈ Catalogue.names ∧ "MTT" ∉ Catalogue.names := by decide +kernel
  simp [unknownNames, known, nearest]

theorem report_sampleFields
    (distinct : (sampleFields.map Prod.fst).Nodup) :
    Report sampleFields ⟨rulesOf sampleFields, false⟩ sampleProblems := by
  have missing {key : String} (gone : key ∉ sampleFields.map Prod.fst) (value : Json) :
      (key, value) ∉ sampleFields :=
    fun member => gone (List.mem_map.mpr ⟨_, member, rfl⟩)
  have silent {key : String} (gone : key ∉ sampleFields.map Prod.fst) :
      Remarks sampleFields key (fun _ => []) [] :=
    .missing (missing gone)
  refine ⟨⟨_, (of_iff_wishesOf distinct).mpr rfl, meets_rulesOf _⟩, _,
    [unknownNames "first_party" ["BEER_WARE", "MTT"], [⟨"third_party", .int 1, .notStrings⟩],
      [], []],
    List.replicate 7 [], _, _, strangers_sampleFields, ?_, ?_,
    @Permits.other _ (.string "yes") ?_ nofun, issues_sampleFields, ?_⟩
  · exact .cons (.strings (by simp [sampleFields, roleKey])) <|
      .cons (.notStrings (by simp [sampleFields, roleKey]) nofun) <|
      .cons (.missing (missing (by decide +kernel))) <|
      .cons (.missing (missing (by decide +kernel))) .nil
  · exact .cons (silent (by decide +kernel)) <| .cons (silent (by decide +kernel)) <|
      .cons (silent (by decide +kernel)) <| .cons (silent (by decide +kernel)) <|
      .cons (silent (by decide +kernel)) <|
      .cons (@Remarks.strings _ _ _ ["(Evil) Corp"] (by simp [sampleFields, Section.key])) <|
      .cons (silent (by decide +kernel)) .nil
  · simp [sampleFields, permissionKey]
  · rw [unknownNames_sampleFields]
    rfl

theorem ofJson_reports_sample :
    (sampleFields.map Prod.fst).Nodup ∧ ¬ (rulesOf sampleFields).Breaks ∧
      ofJson (.object sampleFields) = .error (.issues sampleProblems) := by
  have distinct : (sampleFields.map Prod.fst).Nodup := by decide +kernel
  have whole : ¬ (rulesOf sampleFields).Breaks := by
    rcases (rulesOf sampleFields).issues_cases with ⟨error, failed, -⟩ | ⟨found, -, whole, -⟩
    · cases issues_sampleFields.symm.trans failed
    · exact whole
  obtain ⟨config, problems, only, read⟩ := ofJson_reports distinct whole
  obtain ⟨rfl, rfl⟩ := (only _ _).mp (report_sampleFields distinct)
  exact ⟨distinct, whole, read⟩

end Reports

end NoticeScan.Config
