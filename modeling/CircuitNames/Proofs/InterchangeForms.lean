import CircuitNames.Circuit.Interchange
import CircuitNames.Proofs.FormedCircuits
import CircuitNames.Proofs.RegularJson

namespace CircuitNames

namespace Json

/-- A key with anything but digits is no position. -/
theorem listPosition?_eq_none {key : String} {c : Char} (inside : c ∈ key.toList)
    (noDigit : c.isDigit = false) :
    listPosition? key = none := by
  refine if_neg fun ⟨_, written, _⟩ => ?_
  rw [← written] at inside
  rw [Nat.isDigit_of_mem_toDigits (by decide) (by decide) inside] at noDigit
  cases noDigit

theorem Apart.sublist {some_ keys : List String} (apart : Apart keys) (sub : some_.Sublist keys) :
    Apart some_ :=
  ⟨apart.1.sublist sub, fun key inside => apart.2 key (sub.subset inside)⟩

instance (keys : List String) : Decidable (Apart keys) := inferInstanceAs (Decidable (_ ∧ _))

end Json

open Json (Apart Regular RegularFields RegularItems regularItems_iff regularFields_iff)

variable {admits : Number → Prop}

namespace Interchange

/-- An object with a `kind` is regular when its keys are apart and its values are regular. -/
theorem tagged_regular {kind : String} {fields : List (String × Option Json)} (keys : List String)
    (same : fields.map Prod.fst = keys) (apart : Apart ("kind" :: keys))
    (values : ∀ field ∈ fields, ∀ v ∈ field.2, v.Regular Apart admits) :
    (tagged kind fields).Regular Apart admits := by
  have some_ : ((fields.filterMap fun field => field.2.map (field.1, ·)).map Prod.fst).Sublist keys := by
    subst same
    clear apart values
    induction fields with
    | nil => exact .slnil
    | cons field rest ih =>
      obtain ⟨key, _ | value⟩ := field
      · exact ih.cons key
      · exact ih.cons_cons key
  refine ⟨apart.sublist (some_.cons_cons _), trivial, regularFields_iff.mpr fun field inside => ?_⟩
  obtain ⟨⟨key, value⟩, isField, found⟩ := List.mem_filterMap.mp inside
  obtain ⟨v, present, rfl⟩ := Option.map_eq_some_iff.mp found
  exact values _ isField v present

theorem strings_regular (values : List String) : (strings values).Regular Apart admits :=
  regularItems_iff.mpr (List.forall_mem_map.mpr fun _ _ => trivial)

theorem width_regular {width : Option Number} (counts : ∀ count ∈ width, count.Counts admits) :
    ∀ v ∈ Interchange.width width, v.Regular Apart admits := by
  intro v inside
  obtain ⟨count, present, rfl⟩ := Option.map_eq_some_iff.mp inside
  exact (counts count present).admitted

end Interchange

open Interchange (tagged tagged_regular strings_regular width_regular)

theorem GroundType.toJson_regular {type : GroundType} (counted : type.Counted admits) :
    type.toJson.Regular Apart admits := by
  cases type with
  | uint width | sint width | analog width =>
    exact tagged_regular ["width"] rfl (by decide +kernel)
      (List.forall_mem_singleton.mpr (width_regular counted))
  | clock | reset | asyncReset => exact tagged_regular [] rfl (by decide +kernel) (List.forall_mem_nil _)

namespace Expr

mutual

/-- The written form of an expression keeps its keys where they are, and its numbers are those of the
expression. -/
theorem toJson_regular : ∀ {value : Expr}, value.Formed admits → value.toJson.Regular Apart admits
  | .ref name, _ => by
    rw [toJson]
    exact tagged_regular ["name"] rfl (by decide +kernel) (by simp [Regular])
  | .subfield base name, formed => by
    have baseOk : base.toJson.Regular Apart admits := toJson_regular formed
    rw [toJson]
    exact tagged_regular ["expr", "name"] rfl (by decide +kernel) (by simp [Regular, baseOk])
  | .uintLit value width, ⟨_, counts⟩ | .sintLit value width, ⟨_, counts⟩ => by
    rw [toJson]
    refine tagged_regular ["value", "width"] rfl (by decide +kernel) ?_
    exact List.forall_mem_cons.mpr ⟨by simp [Regular], List.forall_mem_singleton.mpr (width_regular counts)⟩
  | .prim op args consts, ⟨_, formed, counts⟩ => by
    have ofArgs := toJsonAll_regular formed
    have ofConsts : RegularItems Apart admits (consts.map .number) :=
      regularItems_iff.mpr (List.forall_mem_map.mpr fun count inside => (counts count inside).admitted)
    rw [toJson]
    exact tagged_regular ["op", "args", "consts"] rfl (by decide +kernel)
      (by simp [Regular, ofArgs, ofConsts])
  | .mux cond whenTrue whenFalse, ⟨condOk, trueOk, falseOk⟩ => by
    rw [toJson]
    exact tagged_regular ["cond", "tval", "fval"] rfl (by decide +kernel)
      (by simp [toJson_regular condOk, toJson_regular trueOk, toJson_regular falseOk])
  | .validIf cond value, ⟨condOk, valueOk⟩ => by
    rw [toJson]
    exact tagged_regular ["cond", "value"] rfl (by decide +kernel)
      (by simp [toJson_regular condOk, toJson_regular valueOk])

theorem toJsonAll_regular : ∀ {values : List Expr}, FormedAll admits values →
    RegularItems Apart admits (toJsonAll values)
  | [], _ => by
    rw [toJsonAll]
    trivial
  | _ :: _, ⟨first, later⟩ => by
    rw [toJsonAll]
    exact ⟨toJson_regular first, toJsonAll_regular later⟩

end

end Expr

theorem RegReset.toJson_regular {reset : RegReset} (signal : reset.signal.Formed admits)
    (init : reset.init.Formed admits) :
    reset.toJson.Regular Apart admits :=
  ⟨(by decide +kernel : Apart ["signal", "init"]), Expr.toJson_regular signal,
    Expr.toJson_regular init, trivial⟩

namespace Stmt

theorem Formed.expr_regular {stmt : Stmt} (formed : stmt.Formed admits) {expr : Expr}
    (held : expr ∈ stmt.ownExprs) :
    expr.toJson.Regular Apart admits := Expr.toJson_regular (formed.exprs expr held)

theorem memFields_regular {decl : MemDecl} (counted : (mem decl).Counted admits) :
    ∀ field ∈ memFields decl, ∀ v ∈ field.2, v.Regular Apart admits := by
  obtain ⟨typed, depth, readLatency, writeLatency⟩ := counted
  simp [memFields, Regular, GroundType.toJson_regular typed, depth.admitted, readLatency.admitted,
    writeLatency.admitted, strings_regular]

mutual

theorem toJson_regular : ∀ {value : Stmt}, (∀ part ∈ value.walk, part.Formed admits) →
    value.toJson.Regular Apart admits
  | .wire name type, formed => by
    have own := formed _ List.mem_cons_self
    rw [toJson]
    exact tagged_regular ["name", "type"] rfl (by decide +kernel)
      (by simp [Regular, GroundType.toJson_regular own.counted])
  | .reg name type clock none, formed => by
    have own := formed _ List.mem_cons_self
    have clockOk := own.expr_regular (show clock ∈ _ by simp [ownExprs])
    rw [toJson]
    exact tagged_regular ["name", "type", "clock", "reset"] rfl (by decide +kernel)
      (by simp [Regular, GroundType.toJson_regular own.counted, clockOk])
  | .reg name type clock (some reset), formed => by
    have own := formed _ List.mem_cons_self
    have clockOk := own.expr_regular (show clock ∈ _ by simp [ownExprs])
    have resetOk : reset.toJson.Regular Apart admits :=
      RegReset.toJson_regular (own.exprs _ (by simp [ownExprs])) (own.exprs _ (by simp [ownExprs]))
    rw [toJson]
    exact tagged_regular ["name", "type", "clock", "reset"] rfl (by decide +kernel)
      (by simp [Regular, GroundType.toJson_regular own.counted, clockOk, resetOk])
  | .node name value, formed => by
    have valueOk := (formed _ List.mem_cons_self).expr_regular (show value ∈ _ by simp [ownExprs])
    rw [toJson]
    exact tagged_regular ["name", "value"] rfl (by decide +kernel) (by simp [Regular, valueOk])
  | .inst name module, formed => by
    rw [toJson]
    exact tagged_regular ["name", "module"] rfl (by decide +kernel) (by simp [Regular])
  | .mem decl, formed => by
    have own := formed _ List.mem_cons_self
    rw [toJson]
    exact tagged_regular
      ["name", "dataType", "depth", "readLatency", "writeLatency", "readers", "writers", "readwriters",
      "readUnderWrite"] rfl (by decide +kernel) (memFields_regular own.counted)
  | .connect loc value, formed => by
    have own := formed _ List.mem_cons_self
    have locOk := own.expr_regular (show loc ∈ _ by simp [ownExprs])
    have valueOk := own.expr_regular (show value ∈ _ by simp [ownExprs])
    rw [toJson]
    exact tagged_regular ["loc", "expr"] rfl (by decide +kernel) (by simp [locOk, valueOk])
  | .invalidate target, formed => by
    have targetOk := (formed _ List.mem_cons_self).expr_regular (show target ∈ _ by simp [ownExprs])
    rw [toJson]
    exact tagged_regular ["expr"] rfl (by decide +kernel) (by simp [targetOk])
  | .when cond body otherwise, formed => by
    obtain ⟨own, held⟩ := List.forall_mem_cons.mp formed
    obtain ⟨inBody, inOtherwise⟩ := List.forall_mem_append.mp held
    have condOk := own.expr_regular (show cond ∈ _ by simp [ownExprs])
    rw [toJson]
    exact tagged_regular ["cond", "then", "else"] rfl (by decide +kernel)
      (by simp [Regular, condOk, toJsonAll_regular inBody, toJsonAll_regular inOtherwise])
  | .block body, formed => by
    obtain ⟨-, held⟩ := List.forall_mem_cons.mp formed
    rw [toJson]
    exact tagged_regular ["stmts"] rfl (by decide +kernel) (by simp [Regular, toJsonAll_regular held])
  | .stop clock en exitCode, formed => by
    have own := formed _ List.mem_cons_self
    have clockOk := own.expr_regular (show clock ∈ _ by simp [ownExprs])
    have enOk := own.expr_regular (show en ∈ _ by simp [ownExprs])
    rw [toJson]
    exact tagged_regular ["clock", "en", "exitCode"] rfl (by decide +kernel)
      (by simp [Regular, clockOk, enOk, own.counted.admitted])
  | .print clock en format args, formed => by
    have own := formed _ List.mem_cons_self
    have clockOk := own.expr_regular (show clock ∈ _ by simp [ownExprs])
    have enOk := own.expr_regular (show en ∈ _ by simp [ownExprs])
    have argsOk : RegularItems Apart admits (args.map Expr.toJson) :=
      regularItems_iff.mpr
        (List.forall_mem_map.mpr fun arg inside => own.expr_regular (by simp [ownExprs, inside]))
    rw [toJson]
    exact tagged_regular ["clock", "en", "format", "args"] rfl (by decide +kernel)
      (by simp [Regular, clockOk, enOk, argsOk])
  | .skip, _ => by
    rw [toJson]
    exact tagged_regular [] rfl (by decide +kernel) (List.forall_mem_nil _)

theorem toJsonAll_regular : ∀ {values : List Stmt}, (∀ part ∈ walkAll values, part.Formed admits) →
    RegularItems Apart admits (toJsonAll values)
  | [], _ => by
    rw [toJsonAll]
    trivial
  | _ :: _, formed => by
    obtain ⟨first, later⟩ := List.forall_mem_append.mp formed
    rw [toJsonAll]
    exact ⟨toJson_regular first, toJsonAll_regular later⟩

end

end Stmt

theorem Port.toJson_regular {port : Port} (counted : port.type.Counted admits) :
    port.toJson.Regular Apart admits :=
  ⟨(by decide +kernel : Apart ["name", "direction", "type"]), trivial, trivial,
    GroundType.toJson_regular counted, trivial⟩

theorem Param.toJson_regular {param : Param} (admitted : param.value.Admitted admits) :
    param.toJson.Regular Apart admits := by
  obtain ⟨name, value⟩ := param
  have valueOk : value.toJson.Regular Apart admits := by
    cases value with
    | string text => trivial
    | number n => exact admitted
  exact ⟨(by decide +kernel : Apart ["name", "value"]), trivial, valueOk, trivial⟩

theorem Module.toJson_regular {module : Module} (formed : module.Formed admits) :
    module.toJson.Regular Apart admits := by
  cases module with
  | regular module =>
    obtain ⟨counted, formed⟩ := formed
    have ports : RegularItems Apart admits (module.ports.map Port.toJson) :=
      regularItems_iff.mpr
        (List.forall_mem_map.mpr fun port inside => Port.toJson_regular (counted port inside))
    exact tagged_regular ["name", "ports", "body"] rfl (by decide +kernel)
      (by simp [Regular, ports, Stmt.toJsonAll_regular formed])
  | external module =>
    obtain ⟨counted, -, formed⟩ := formed
    have ports : RegularItems Apart admits (module.ports.map Port.toJson) :=
      regularItems_iff.mpr
        (List.forall_mem_map.mpr fun port inside => Port.toJson_regular (counted port inside))
    have params : RegularItems Apart admits (module.params.map Param.toJson) :=
      regularItems_iff.mpr
        (List.forall_mem_map.mpr fun param inside => Param.toJson_regular (formed param inside).2)
    exact tagged_regular ["name", "ports", "defname", "params"] rfl (by decide +kernel)
      (by simp [Regular, ports, params])

/-- The same of a circuit: the keys of the objects stay where they are, and all numbers are numbers of the
circuit. -/
theorem Circuit.toJson_regular {circuit : Circuit} (formed : circuit.Formed admits) :
    circuit.toJson.Regular Apart admits :=
  ⟨(by decide +kernel : Apart ["main", "modules"]), trivial,
    regularItems_iff.mpr
      (List.forall_mem_map.mpr fun module inside => Module.toJson_regular (formed module inside)), trivial⟩

end CircuitNames
