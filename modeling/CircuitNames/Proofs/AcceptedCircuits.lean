import CircuitNames.Proofs.AcceptedStatements
import CircuitNames.Proofs.InterchangeForms
import CircuitNames.Proofs.KeyedValues

namespace CircuitNames

/-- A module whose names are identifiers and whose numbers and texts can be read. -/
def Module.Readable (module : Module) : Prop :=
  (∀ name ∈ module.names, isIdentifier name = true) ∧ module.Formed fun _ => True

/-- A circuit that can be read: every name is an identifier, every count a whole number from zero up, every
literal a whole number, and no operation, defined name or parameter name is empty. -/
structure Circuit.Valid (circuit : Circuit) : Prop where
  identified : circuit.Identified
  formed : circuit.Formed fun _ => True

theorem Circuit.valid_iff {circuit : Circuit} :
    circuit.Valid ↔ isIdentifier circuit.main = true ∧ ∀ module ∈ circuit.modules, module.Readable := by
  constructor
  · rintro ⟨⟨main, names⟩, formed⟩
    exact ⟨main, fun module inside => ⟨names module inside, formed module inside⟩⟩
  · rintro ⟨main, readable⟩
    exact ⟨⟨main, fun module inside => (readable module inside).1⟩,
      fun module inside => (readable module inside).2⟩

theorem Circuit.toJson_keyed {circuit : Circuit} (formed : circuit.Formed fun _ => True) :
    circuit.toJson.Keyed :=
  (Circuit.toJson_regular formed).imp (fun _ apart => apart.1) fun _ _ => trivial

namespace Decode
open Json (Record Abridged Fits asObject_eq_ok asName asText asList asOptionalList fits_string_iff)

theorem direction_reads (side : Direction) : Reads direction none side True (some (.string side.name)) := by
  intro label found _
  rw [true_and, fits_string_iff]
  constructor
  · intro read
    unfold direction at read
    split at read
    · exact Except.ok.inj read ▸ rfl
    · exact Except.ok.inj read ▸ rfl
    · cases read
  · rintro rfl
    cases side <;> rfl

theorem port_reads (value : Port) :
    Reads port none value (isIdentifier value.name = true ∧ value.type.Counted fun _ => True)
      (some value.toJson) :=
  reads_object ["name", "direction", "type"] [] rfl (by decide) rfl (fun _ _ => port_eq_ok)
    (fun _ keyed => (asName_reads value.name).field keyed <| (direction_reads value.direction).field keyed <|
      (groundType_reads value.type).last keyed) (by rw [true_and])

theorem paramValue_reads (value : ParamValue) : Reads paramValue none value True (some value.toJson) := by
  intro label found _
  rw [true_and]
  cases value with
  | string text =>
    rw [ParamValue.toJson, fits_string_iff]
    constructor
    · intro read
      unfold paramValue at read
      split at read
      · obtain ⟨rfl⟩ := ParamValue.string.inj (Except.ok.inj read)
        rfl
      · cases Except.ok.inj read
      · cases read
    · rintro rfl
      rfl
  | number n =>
    rw [ParamValue.toJson, Json.fits_number_iff]
    constructor
    · intro read
      unfold paramValue at read
      split at read
      · cases Except.ok.inj read
      · obtain ⟨rfl⟩ := ParamValue.number.inj (Except.ok.inj read)
        rfl
      · cases read
    · rintro rfl
      rfl

theorem param_reads (value : Param) :
    Reads param none value (value.name ≠ "" ∧ value.value.Admitted fun _ => True) (some value.toJson) := by
  have admitted : value.value.Admitted fun _ => True := by cases value.value <;> trivial
  exact reads_object ["name", "value"] [] rfl (by decide) rfl (fun _ _ => param_eq_ok)
    (fun _ keyed => (asText_reads value.name).field keyed <| (paramValue_reads value.value).last keyed)
    (and_congr_right fun _ => iff_of_true admitted trivial)

/-- An external module's `defname` defaults to the module's own name, so what may be left out depends on the
name. -/
theorem defname_reads {name : String} (named : name ≠ "") (defined : String) :
    Reads (defname name) (some (.string name)) defined (defined ≠ "") (some (.string defined)) := by
  intro label found keyed
  cases found with
  | none =>
    simp only [defname, Fits, Except.ok.injEq, Option.some.injEq, Json.string.injEq]
    exact ⟨fun same => ⟨same ▸ named, same⟩, And.right⟩
  | some found => exact asText_reads defined label (some found) keyed

theorem module_reads (value : Module) : Reads module none value value.Readable (some value.toJson) := by
  have ports (found : List Port) := asList_reads fun port (_ : port ∈ found) => port_reads port
  cases value with
  | regular value =>
    have whole : (Module.regular value).Readable ↔ isIdentifier value.name = true ∧
        (∀ port ∈ value.ports, isIdentifier port.name = true ∧ port.type.Counted fun _ => True) ∧
        ∀ part ∈ value.body, part.Readable := by
      rw [← Stmt.readableAll_iff]
      exact Module.regular_legible_iff
    exact reads_tagged ["name", "ports", "body"] [] rfl (by decide) (by decide) rfl
      (fun _ _ => module_eq_ok)
        (fun _ keyed => (asName_reads value.name).field keyed <| (ports value.ports).field keyed <|
        (stmts_read (each_stmt_reads value.body)).last keyed) whole
  | external value =>
    have whole : (Module.external value).Readable ↔ isIdentifier value.name = true ∧
        (∀ port ∈ value.ports, isIdentifier port.name = true ∧ port.type.Counted fun _ => True) ∧
        value.defname ≠ "" ∧ ∀ param ∈ value.params, param.name ≠ "" ∧ param.value.Admitted fun _ => True :=
      Module.external_legible_iff
    refine reads_tagged ["name", "ports", "defname", "params"]
      [("params", .array []), ("defname", .string value.name)]
      rfl (by decide) (by decide) rfl (fun _ _ => module_eq_ok) (fun record keyed => ?_) whole
    by_cases identified : isIdentifier value.name = true
    · have named : value.name ≠ "" := by
        intro empty
        rw [empty] at identified
        cases identified
      exact (asName_reads value.name).field keyed <| (ports value.ports).field keyed <|
        (defname_reads named value.defname).field keyed <|
          (asOptionalList_reads fun param _ => param_reads param).last keyed
    · exact iff_of_false (fun read => identified (asName_identifier read.1)) fun stands =>
        identified stands.1.1

/-- Among the values whose keys are distinct, a circuit is read from exactly those that stand for a well
formed circuit written out in full: the fields of an object in any order, and those with a default left out or
not. -/
theorem circuit_reads {value : Json} (keyed : value.Keyed) {result : Circuit} :
    circuit value = .ok result ↔ result.Valid ∧ Abridged result.toJson value := by
  have modules := asList_reads fun module (_ : module ∈ result.modules) => module_reads module
  have inside (record : Record) (fieldsKeyed : (Json.object record.fields).Keyed) :
      CircuitFields record result ↔ result.Valid ∧ Abridged result.toJson (.object record.fields) := by
    have held := Record.keyed_of_fields fieldsKeyed
    rw [CircuitFields]
    exact read_iff_abridged ["main", "modules"] [] rfl (by decide) rfl fieldsKeyed
      ((asName_reads result.main).field held <| modules.last held) Circuit.valid_iff
  rw [circuit_eq_ok]
  constructor
  · rintro ⟨record, atRecord, read⟩
    obtain ⟨-, same⟩ := asObject_eq_ok.mp atRecord
    obtain rfl := Option.some.inj same
    exact (inside record keyed).mp read
  · rintro ⟨valid, stands⟩
    cases value with
    | object fields =>
      exact ⟨⟨"circuit", fields⟩, rfl, (inside ⟨"circuit", fields⟩ keyed).mpr ⟨valid, stands⟩⟩
    | _ => cases stands

/-- A circuit that is well formed is read back as it was written just when its names are identifiers. -/
theorem circuit_toJson_iff {value : Circuit} (formed : value.Formed fun _ => True) :
    circuit value.toJson = .ok value ↔ value.Identified := by
  rw [circuit_reads (Circuit.toJson_keyed formed), and_iff_left (Abridged.refl _)]
  exact ⟨Circuit.Valid.identified, fun identified => ⟨identified, formed⟩⟩

/-- Every value that a text denotes can be read just as far as it stands for a well formed circuit. -/
theorem circuit_of_text {text : String} {value : Json} (denotes : Json.read? text = some value)
    {result : Circuit} :
    circuit value = .ok result ↔ result.Valid ∧ Abridged result.toJson value :=
  circuit_reads (Json.read?_keyed denotes)

/-- A circuit is read from exactly the values that stand for it written out in full, if it is a well formed
one. So it is read from its own form too. No value that a text denotes has a key twice, so that nothing more
is asked of one. -/
theorem circuit_accepts_exactly (value : Json) (result : Circuit) :
    (circuit value = .ok result ∧ value.Keyed ↔ result.Valid ∧ Abridged result.toJson value) ∧
      (∀ text, Json.read? text = some value →
        (circuit value = .ok result ↔ result.Valid ∧ Abridged result.toJson value)) ∧
      (circuit value = .ok result → circuit result.toJson = .ok result) := by
  refine ⟨⟨?_, ?_⟩, fun text denotes => circuit_of_text denotes, fun read => ?_⟩
  · rintro ⟨read, keyed⟩
    exact (circuit_reads keyed).mp read
  · rintro ⟨valid, stands⟩
    have keyed := stands.keyed (Circuit.toJson_keyed valid.formed)
    exact ⟨(circuit_reads keyed).mpr ⟨valid, stands⟩, keyed⟩
  · have decoded : result.Decoded := ⟨value, read⟩
    exact (circuit_toJson_iff decoded.formed).mpr decoded.identified

/-- An external module with its keys in another order and without the fields that hold their defaults. -/
theorem circuit_accepts_terse :
    let value : Json := .object [
      ("modules", .array
        [.object [("ports", .array []), ("name", .string "Ext"), ("kind", .string "extmodule")]]),
      ("main", .string "Ext")]
    let result : Circuit := ⟨"Ext", [.external ⟨"Ext", [], "Ext", []⟩]⟩
    circuit value = .ok result ∧ circuit result.toJson = .ok result := by
  intro value result
  have valid : result.Valid := by
    have named : isIdentifier "Ext" = true := by cbv
    have names : ∀ name ∈ ["Ext"], isIdentifier name = true := List.forall_mem_singleton.mpr named
    exact ⟨⟨named, List.forall_mem_singleton.mpr names⟩,
      List.forall_mem_singleton.mpr ⟨List.forall_mem_nil _, by decide, List.forall_mem_nil _⟩⟩
  have module : Abridged
      (.object [("kind", .string "extmodule"), ("name", .string "Ext"), ("ports", .array []),
      ("defname", .string "Ext"), ("params", .array [])])
      (.object [("ports", .array []), ("name", .string "Ext"), ("kind", .string "extmodule")]) :=
    .object (.keep (.string _) <| .keep (.string _) <| .keep (.array .nil) <| .leave rfl <| .leave rfl .nil)
      (List.reverse_perm _).symm
  have stands : Abridged result.toJson value :=
    .object (.keep (.string _) <| .keep (.array (.cons module .nil)) .nil) (List.reverse_perm _).symm
  have accepted := circuit_accepts_exactly value result
  obtain ⟨read, -⟩ := accepted.1.mpr ⟨valid, stands⟩
  exact ⟨read, accepted.2.2 read⟩

end Decode

end CircuitNames
