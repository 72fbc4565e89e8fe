import CircuitNames.Circuit.Interchange
import CircuitNames.Proofs.FieldReads
import CircuitNames.Proofs.ReadSkips

namespace CircuitNames

/-- The keys that belong to a rule besides its name, with what is listed under them. -/
def RuleSpec.data : RuleSpec → List (String × Json)
  | keywords words => [("keywords", Interchange.strings words)]
  | prepend front => [("prefix", .string front)]
  | verilogKeywords | lowerCase | upperCase => []

/-- The texts in the data of a rule. -/
def RuleSpec.texts : RuleSpec → List String
  | keywords words => words
  | prepend front => [front]
  | verilogKeywords | lowerCase | upperCase => []

theorem RuleSpec.name_ne_empty (spec : RuleSpec) : spec.name ≠ "" := by
  have each : ∀ name ∈ names, name ≠ "" := by decide
  exact each spec.name (by cases spec <;> simp [name, names])

namespace Config
open Json (Record asText asTexts asObject asObject_eq_ok)

/-- A pass as it is listed: its rule, and the texts of what it skips unless they are left out. -/
structure Listing where
  spec : RuleSpec
  skip : Option (List String)

namespace Listing

/-- What is listed to be skipped, nothing if it is left out. -/
def skipped (listing : Listing) : List String := listing.skip.getD []

end Listing

/-- The fields of a pass tell its rule: they hold the name of the rule, all of its data, and no other keys but
`skip`. -/
structure Tells (fields : List (String × Json)) (spec : RuleSpec) : Prop where
  rule : fields.lookup "rule" = some (.string spec.name)
  data : ∀ entry ∈ spec.data, fields.lookup entry.1 = some entry.2
  texts : ∀ text ∈ spec.texts, text ≠ ""
  known : ∀ key ∈ fields.map Prod.fst, key ∈ "rule" :: "skip" :: spec.data.map Prod.fst

/-- The fields of a pass list some texts to skip, or they have no such field. -/
structure Skips (fields : List (String × Json)) (skip : Option (List String)) : Prop where
  field : fields.lookup "skip" = skip.map Interchange.strings
  texts : ∀ listed ∈ skip, ∀ text ∈ listed, text ≠ ""

/-- A value that lists a pass. -/
inductive Describes : Json → Listing → Prop
  | object {fields : List (String × Json)} {listing : Listing} : Tells fields listing.spec →
      Skips fields listing.skip → Describes (.object fields) listing

/-- A value that lists passes, one at least. -/
inductive Lists : Json → List Listing → Prop
  | object {fields : List (String × Json)} {items : List Json} {listings : List Listing} :
      (∀ key ∈ fields.map Prod.fst, key ∈ ["schema", "passes"]) → fields.lookup "schema" = some (.number 1) →
      fields.lookup "passes" = some (.array items) → items ≠ [] → List.Forall₂ Describes items listings →
      Lists (.object fields) listings

/-- A pass is read from its listing. -/
def Gives (listing : Listing) (pass : PassConfig) : Prop :=
  pass.spec = listing.spec ∧ SkipSet.parse listing.skipped = .ok pass.skips

section
variable {label text : String} {texts : List String} {found : Option Json} {fields : List (String × Json)}
  {spec : RuleSpec}

theorem asText_eq_ok : asText label found = .ok text ↔ found = some (.string text) ∧ text ≠ "" := by
  constructor
  · intro read
    refine ⟨?_, Decode.asText_nonempty read⟩
    unfold asText at read
    split at read
    · split at read
      · cases read
      · exact Except.ok.inj read ▸ rfl
    · cases read
  · rintro ⟨rfl, nonempty⟩
    simp [asText, nonempty]

/-- A string that is not empty. -/
def listedText? : Json → Option String
  | .string text => if text.isEmpty then none else some text
  | _ => none

theorem listedText?_eq_some {item : Json} :
    listedText? item = some text ↔ item = .string text ∧ text ≠ "" := by
  constructor
  · intro listed
    unfold listedText? at listed
    split at listed
    · rename_i own
      split at listed
      · cases listed
      · rename_i nonempty
        obtain rfl := Option.some.inj listed
        exact ⟨rfl, by simpa using nonempty⟩
    · cases listed
  · rintro ⟨rfl, nonempty⟩
    simp [listedText?, nonempty]

theorem mapM_listedText? {items : List Json} :
    items.mapM listedText? = some texts ↔ items = texts.map .string ∧ ∀ text ∈ texts, text ≠ "" := by
  induction items generalizing texts with
  | nil => cases texts <;> simp
  | cons item rest ih =>
    simp only [List.mapM_cons, Option.bind_eq_bind, Option.bind_eq_some_iff, Option.pure_def,
      Option.some.injEq, listedText?_eq_some, ih]
    constructor
    · rintro ⟨text, ⟨rfl, nonempty⟩, later, ⟨rfl, others⟩, rfl⟩
      exact ⟨rfl, List.forall_mem_cons.mpr ⟨nonempty, others⟩⟩
    · rintro ⟨shape, nonempty⟩
      cases texts with
      | nil => cases shape
      | cons text later =>
        obtain ⟨rfl, rfl⟩ := List.cons.inj shape
        obtain ⟨own, others⟩ := List.forall_mem_cons.mp nonempty
        exact ⟨text, ⟨rfl, own⟩, later, ⟨rfl, others⟩, rfl⟩

theorem asTexts_eq_ok :
    asTexts label found = .ok texts ↔
      found = some (Interchange.strings texts) ∧ ∀ text ∈ texts, text ≠ "" := by
  cases found with
  | none => simp [asTexts]
  | some value =>
    cases value with
    | array items =>
      rw [Interchange.strings, Option.some.injEq, Json.array.injEq, ← mapM_listedText?]
      unfold asTexts
      dsimp only
      split
      next listed read =>
        have read : items.mapM listedText? = some listed := read
        rw [read, Except.ok.injEq, Option.some.injEq]
      next read =>
        have read : items.mapM listedText? = none := read
        rw [read]
        exact iff_of_false (by simp) (by simp)
    | _ => simp [asTexts, Interchange.strings]

/-- What is asked of the fields of a pass for its rule to be read from them. -/
theorem readSpec_eq_ok : readSpec ⟨label, fields⟩ = .ok spec ↔ Tells fields spec := by
  constructor
  · intro read
    obtain ⟨rule, atRule, read⟩ := bind_eq_ok.mp read
    obtain ⟨named, -⟩ := asText_eq_ok.mp atRule
    split at read
    · obtain ⟨_, known, words, atWords, result⟩ := by simpa only [bind_eq_ok] using read
      obtain rfl := Except.ok.inj result
      obtain ⟨listed, nonempty⟩ := asTexts_eq_ok.mp atWords
      exact ⟨named, List.forall_mem_singleton.mpr listed, nonempty, Record.allowOnly_eq_ok.mp known⟩
    · obtain ⟨_, known, front, atFront, result⟩ := by simpa only [bind_eq_ok] using read
      obtain rfl := Except.ok.inj result
      obtain ⟨listed, nonempty⟩ := asText_eq_ok.mp atFront
      exact ⟨named, List.forall_mem_singleton.mpr listed, List.forall_mem_singleton.mpr nonempty,
        Record.allowOnly_eq_ok.mp known⟩
    · obtain ⟨_, known, result⟩ := bind_eq_ok.mp read
      exact Except.ok.inj result ▸
        ⟨named, List.forall_mem_nil _, List.forall_mem_nil _, Record.allowOnly_eq_ok.mp known⟩
    · obtain ⟨_, known, result⟩ := bind_eq_ok.mp read
      exact Except.ok.inj result ▸
        ⟨named, List.forall_mem_nil _, List.forall_mem_nil _, Record.allowOnly_eq_ok.mp known⟩
    · obtain ⟨_, known, result⟩ := bind_eq_ok.mp read
      exact Except.ok.inj result ▸
        ⟨named, List.forall_mem_nil _, List.forall_mem_nil _, Record.allowOnly_eq_ok.mp known⟩
    · cases read
  · rintro ⟨named, listed, nonempty, known⟩
    have atRule : Record.read ⟨label, fields⟩ asText "rule" = .ok spec.name :=
      asText_eq_ok.mpr ⟨named, spec.name_ne_empty⟩
    have allowed := (@Record.allowOnly_eq_ok ⟨label, fields⟩ _).mpr known
    cases spec with
    | keywords words =>
      have atWords : Record.read ⟨label, fields⟩ asTexts "keywords" = .ok words :=
        asTexts_eq_ok.mpr ⟨listed _ List.mem_cons_self, nonempty⟩
      exact bind_ok atRule <| bind_ok allowed <| bind_ok atWords rfl
    | prepend front =>
      have atFront : Record.read ⟨label, fields⟩ asText "prefix" = .ok front :=
        asText_eq_ok.mpr ⟨listed _ List.mem_cons_self, nonempty _ List.mem_cons_self⟩
      exact bind_ok atRule <| bind_ok allowed <| bind_ok atFront rfl
    | verilogKeywords | lowerCase | upperCase => exact bind_ok atRule <| bind_ok allowed rfl

theorem Tells.unique {other : RuleSpec} (tells : Tells fields spec) (alsoTells : Tells fields other) :
    spec = other :=
  have read : readSpec ⟨"", fields⟩ = .ok spec := readSpec_eq_ok.mpr tells
  Except.ok.inj (read.symm.trans (readSpec_eq_ok.mpr alsoTells))

theorem strings_injective : Function.Injective Interchange.strings := by
  intro texts others same
  have injective : Function.Injective Json.string := fun _ _ => Json.string.inj
  exact List.map_injective_iff.mpr injective (Json.array.inj same)

theorem readSkips_eq_ok {skips : SkipSet} : readSkips ⟨label, fields⟩ = .ok skips ↔
    ∃ skip, Skips fields skip ∧ SkipSet.parse (skip.getD []) = .ok skips := by
  unfold readSkips
  constructor
  · intro read
    split at read
    next absent => exact ⟨none, ⟨absent, fun _ none_ => by cases none_⟩, read⟩
    next =>
      obtain ⟨texts, listed, parsed⟩ := bind_eq_ok.mp read
      obtain ⟨field, nonempty⟩ := asTexts_eq_ok.mp (mapError_eq_ok.mp listed)
      exact ⟨some texts, ⟨field, fun _ same => Option.some.inj same ▸ nonempty⟩, parsed⟩
  · rintro ⟨skip, ⟨field, nonempty⟩, parsed⟩
    have found : Record.get? ⟨label, fields⟩ "skip" = skip.map Interchange.strings := field
    rw [found]
    cases skip with
    | none => exact parsed
    | some texts => exact bind_ok (mapError_eq_ok.mpr (asTexts_eq_ok.mpr ⟨rfl, nonempty texts rfl⟩)) parsed

end

/-- A pass is read from a value when the value describes a pass by the schema and the texts of its skips are
all targets: what is read is the rule told, with these targets as the set of skips. -/
theorem readPass_eq_ok {position : Nat} {value : Json} {pass : PassConfig} :
    readPass position value = .ok pass ↔ ∃ listing, Describes value listing ∧ Gives listing pass := by
  constructor
  · intro read
    obtain ⟨⟨own, fields⟩, isObject, spec, atSpec, skips, atSkips, result⟩ := by
      simpa only [readPass, bind_eq_ok] using read
    obtain rfl := Except.ok.inj result
    obtain ⟨rfl, same⟩ := asObject_eq_ok.mp (mapError_eq_ok.mp isObject)
    obtain rfl := Option.some.inj same
    obtain ⟨skip, listed, parsed⟩ := readSkips_eq_ok.mp atSkips
    exact ⟨⟨spec, skip⟩, .object (readSpec_eq_ok.mp (mapError_eq_ok.mp atSpec)) listed, rfl, parsed⟩
  · rintro ⟨listing, ⟨tells, listed⟩, same, parsed⟩
    obtain ⟨spec, skips⟩ := pass
    subst same
    refine bind_ok (mapError_eq_ok.mpr rfl) <| bind_ok (mapError_eq_ok.mpr (readSpec_eq_ok.mpr tells)) <|
      bind_ok (readSkips_eq_ok.mpr ⟨_, listed, parsed⟩) rfl

theorem readPasses_eq_ok {position : Nat} {values : List Json} {passes : List PassConfig} :
    readPasses position values = .ok passes ↔
      ∃ listings, List.Forall₂ Describes values listings ∧ List.Forall₂ Gives listings passes := by
  induction values generalizing position passes with
  | nil =>
    constructor
    · intro read
      exact Except.ok.inj read ▸ ⟨[], .nil, .nil⟩
    · rintro ⟨_, ⟨⟩, ⟨⟩⟩
      rfl
  | cons value rest ih =>
    rw [readPasses]
    simp only [bind_eq_ok, readPass_eq_ok, ih]
    constructor
    · rintro ⟨pass, ⟨listing, describes, gives⟩, later, ⟨listings, describe, give⟩, result⟩
      exact Except.ok.inj result ▸ ⟨listing :: listings, .cons describes describe, .cons gives give⟩
    · rintro ⟨_, describe, give⟩
      cases describe with | cons describes describe =>
      cases give with | cons gives give =>
      exact ⟨_, ⟨_, describes, gives⟩, _, ⟨_, describe, give⟩, rfl⟩

/-- A configuration is read pass by pass from a value that lists passes. -/
theorem ofJson_eq_ok_iff {value : Json} {config : Config} :
    ofJson value = .ok config ↔
      ∃ listings, Lists value listings ∧ List.Forall₂ Gives listings config.passes := by
  rw [ofJson_eq_ok]
  constructor
  · rintro ⟨⟨own, fields⟩, first, rest, isObject, allowed, atSchema, atPasses, read⟩
    obtain ⟨-, same⟩ := asObject_eq_ok.mp isObject
    obtain rfl := Option.some.inj same
    obtain ⟨listings, describe, give⟩ := readPasses_eq_ok.mp read
    exact ⟨listings, .object (Record.allowOnly_eq_ok.mp allowed) atSchema atPasses
      (List.cons_ne_nil _ _) describe, give⟩
  · rintro ⟨listings, ⟨known, atSchema, atPasses, some_, describe⟩, give⟩
    obtain ⟨first, rest, rfl⟩ := List.exists_cons_of_ne_nil some_
    exact ⟨⟨configFileName, _⟩, first, rest, rfl, Record.allowOnly_eq_ok.mpr known, atSchema, atPasses,
      readPasses_eq_ok.mpr ⟨listings, describe, give⟩⟩

/-- A value lists its passes in one way. -/
theorem Describes.unique {value : Json} {listing other : Listing} (describes : Describes value listing)
    (alsoDescribes : Describes value other) : listing = other := by
  obtain ⟨tells, skips⟩ := describes
  obtain ⟨alsoTells, alsoSkips⟩ := alsoDescribes
  have sameSkip := Option.map_injective strings_injective (skips.field.symm.trans alsoSkips.field)
  obtain ⟨spec, skip⟩ := listing
  obtain ⟨otherSpec, otherSkip⟩ := other
  exact congrArg₂ Listing.mk (tells.unique alsoTells) sameSkip

theorem Lists.unique {value : Json} {listings others : List Listing} (lists : Lists value listings)
    (alsoLists : Lists value others) : listings = others := by
  obtain ⟨-, -, atPasses, -, describe⟩ := lists
  obtain ⟨-, -, alsoAtPasses, -, alsoDescribe⟩ := alsoLists
  obtain rfl := Json.array.inj (Option.some.inj (atPasses.symm.trans alsoAtPasses))
  have unique : Relator.RightUnique Describes := fun _ _ _ => Describes.unique
  exact unique.forall₂ describe alsoDescribe

/-- A pass with the rule that is listed, which skips just what is listed to be skipped. -/
structure Carries (listing : Listing) (pass : PassConfig) : Prop where
  spec : pass.spec = listing.spec
  targets : listing.skipped.mapM Target.parse = .ok pass.skips.targets
  matched : ∀ target : Target, pass.skips.contains target = true ↔ target.text ∈ listing.skipped
  identified : ∀ target : Target, target.Identified →
    (pass.skips.contains target = true ↔ target ∈ pass.skips.targets)
  empty : listing.skip = none → pass.skips = .empty

theorem Gives.carries {listing : Listing} {pass : PassConfig} (gives : Gives listing pass) :
    Carries listing pass := by
  obtain ⟨same, parsed⟩ := gives
  obtain ⟨read, -⟩ := SkipSet.parse_eq_ok.mp parsed
  have texts : pass.skips.targets.map Target.text = listing.skipped := by
    have each := (mapM_eq_ok.mp read).imp fun _ _ parsed => (Target.parse_eq_ok_iff.mp parsed).2
    exact (map_eq_of_forall₂ each).trans (List.map_id _)
  refine ⟨same, read, fun target => ?_, fun target => SkipSet.contains_iff_of_read read, fun absent => ?_⟩
  · rw [← texts, SkipSet.contains, List.any_eq_true, List.mem_map]
    simp only [beq_iff_eq]
  · have none_ : SkipSet.parse [] = .ok pass.skips := by simpa [Listing.skipped, absent] using parsed
    exact (Except.ok.inj none_).symm

/-- A configuration is read from a value just when the value lists passes and the skip set of each of them is
accepted. Its passes then come in the order in which they are listed, each with the rule that is listed and
with a skip set that matches what is listed and nothing else. -/
theorem ofJson_accepts_exactly (value : Json) :
    ((∃ config, ofJson value = .ok config) ↔
      ∃ listings, Lists value listings ∧
        ∀ listing ∈ listings, ∃ skips, SkipSet.parse listing.skipped = .ok skips) ∧
    ∀ listings config, Lists value listings → ofJson value = .ok config →
      List.Forall₂ Carries listings config.passes := by
  refine ⟨?_, fun listings config lists read => ?_⟩
  · constructor
    · rintro ⟨config, read⟩
      obtain ⟨listings, lists, give⟩ := ofJson_eq_ok_iff.mp read
      refine ⟨listings, lists, fun listing inside => ?_⟩
      obtain ⟨pass, -, -, parsed⟩ := exists_of_mem_left give inside
      exact ⟨pass.skips, parsed⟩
    · rintro ⟨listings, lists, accepted⟩
      have each : ∀ listing ∈ listings, ∃ pass, Gives listing pass := fun listing inside =>
        (accepted listing inside).imp' (PassConfig.mk listing.spec) fun _ parsed => ⟨rfl, parsed⟩
      obtain ⟨passes, give⟩ := exists_forall₂ each
      exact ⟨⟨passes⟩, ofJson_eq_ok_iff.mpr ⟨listings, lists, give⟩⟩
  · obtain ⟨others, alsoLists, give⟩ := ofJson_eq_ok_iff.mp read
    rw [lists.unique alsoLists]
    exact give.imp fun _ _ => Gives.carries

namespace Sample

/-- A pass with its keys in another order than the schema's that lists a target twice. -/
def fields : List (String × Json) :=
  [("skip", .array [.string "~T|T>w", .string "~T|T>w"]), ("prefix", .string "u_"),
    ("rule", .string "prefix")]

def value : Json := .object [("passes", .array [.object fields,
  .object [("rule", .string "keywords"), ("keywords", .array [])]]), ("schema", .number 1)]

def listings : List Listing := [⟨.prepend "u_", some ["~T|T>w", "~T|T>w"]⟩, ⟨.keywords [], none⟩]

theorem lists : Lists value listings := by
  have first : Describes (.object fields) ⟨.prepend "u_", some ["~T|T>w", "~T|T>w"]⟩ := by
    refine .object ⟨rfl, List.forall_mem_singleton.mpr rfl, by decide, by decide⟩ ⟨rfl, ?_⟩
    exact fun _ same => Option.some.inj same ▸ by decide
  have second : Describes (.object [("rule", .string "keywords"), ("keywords", .array [])])
      ⟨.keywords [], none⟩ :=
    .object ⟨rfl, List.forall_mem_singleton.mpr rfl, List.forall_mem_nil _, by decide⟩
      ⟨rfl, fun _ none_ => by cases none_⟩
  exact .object (by decide) rfl rfl (List.cons_ne_nil _ _) (.cons first (.cons second .nil))

end Sample

theorem ofJson_accepts_sample :
    ∃ config, ofJson Sample.value = .ok config ∧ List.Forall₂ Carries Sample.listings config.passes := by
  obtain ⟨accepts, carries⟩ := ofJson_accepts_exactly Sample.value
  have parsed : SkipSet.parse ["~T|T>w", "~T|T>w"] =
      .ok ⟨List.replicate 2 (.reference ⟨"T", "T", [], "w", []⟩)⟩ := by
    decide +kernel
  obtain ⟨config, read⟩ := accepts.mpr ⟨_, Sample.lists, List.forall_mem_cons.mpr
    ⟨⟨_, parsed⟩, List.forall_mem_singleton.mpr ⟨.empty, rfl⟩⟩⟩
  exact ⟨config, read, carries _ _ Sample.lists read⟩

end Config

end CircuitNames
