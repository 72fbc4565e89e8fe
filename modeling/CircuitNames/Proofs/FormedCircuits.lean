import CircuitNames.Circuit.Decode
import CircuitNames.Proofs.Declarations

namespace CircuitNames

/-- A number that counts something and is admitted. -/
structure Number.Counts (admits : Number → Prop) (count : Number) : Prop where
  isCount : count.isCount = true
  admitted : admits count

section
variable (admits : Number → Prop)

/-- Whether a width counts is asked of the ground types that may have one. -/
def GroundType.Counted : GroundType → Prop
  | uint width | sint width | analog width => ∀ count ∈ width, count.Counts admits
  | clock | reset | asyncReset => True

namespace Expr

mutual

/-- Literals are whole numbers, operations have a name, and widths and constants count. -/
def Formed : Expr → Prop
  | ref _ => True
  | subfield base _ => Formed base
  | uintLit value width | sintLit value width =>
    Decode.isInteger value = true ∧ ∀ count ∈ width, count.Counts admits
  | prim op args consts => op ≠ "" ∧ FormedAll args ∧ ∀ count ∈ consts, count.Counts admits
  | mux cond whenTrue whenFalse => Formed cond ∧ Formed whenTrue ∧ Formed whenFalse
  | validIf cond value => Formed cond ∧ Formed value

def FormedAll : List Expr → Prop
  | [] => True
  | expr :: rest => Formed expr ∧ FormedAll rest

end

end Expr

namespace Stmt

/-- The numbers of a statement outside of its expressions count. -/
def Counted : Stmt → Prop
  | wire _ type | reg _ type _ _ => type.Counted admits
  | mem decl => decl.dataType.Counted admits ∧ decl.depth.Counts admits ∧ decl.readLatency.Counts admits ∧
      decl.writeLatency.Counts admits
  | stop _ _ exitCode => exitCode.Counts admits
  | _ => True

/-- A statement, without those it holds, that is written in a form that can be read. -/
structure Formed (stmt : Stmt) : Prop where
  counted : stmt.Counted admits
  exprs : ∀ expr ∈ stmt.ownExprs, expr.Formed admits

end Stmt

def ParamValue.Admitted : ParamValue → Prop
  | string _ => True
  | number n => admits n

/-- A module can be read back from the form it is written in when its numbers count something and its texts
say something. -/
def Module.Formed : Module → Prop
  | regular module =>
    (∀ port ∈ module.ports, port.type.Counted admits) ∧ ∀ stmt ∈ module.statements, stmt.Formed admits
  | external module =>
    (∀ port ∈ module.ports, port.type.Counted admits) ∧ module.defname ≠ "" ∧
      ∀ param ∈ module.params, param.name ≠ "" ∧ param.value.Admitted admits

/-- A circuit that is written in a form that can be read, whose numbers are admitted. -/
def Circuit.Formed (circuit : Circuit) : Prop := ∀ module ∈ circuit.modules, module.Formed admits

end

variable {admits : Number → Prop}

theorem Expr.legibleAll_iff {exprs : List Expr} :
    ((∀ name ∈ namesAll exprs, isIdentifier name = true) ∧ FormedAll admits exprs) ↔
    ∀ expr ∈ exprs, expr.Identified ∧ expr.Formed admits := by
  induction exprs with
  | nil => simp [namesAll, FormedAll]
  | cons expr rest ih =>
    rw [List.forall_mem_cons, ← ih, namesAll, FormedAll, List.forall_mem_append]
    exact and_and_and_comm

namespace Stmt

/-- A statement, without those it holds, that is read back as it was written. -/
structure Legible (admits : Number → Prop) (stmt : Stmt) : Prop where
  names : ∀ name ∈ stmt.names, isIdentifier name = true
  formed : stmt.Formed admits

theorem legible_iff {stmt : Stmt} : stmt.Legible admits ↔
    (∀ name ∈ (stmt.declaration?.map Declaration.names).getD [], isIdentifier name = true) ∧
      stmt.Counted admits ∧ ∀ expr ∈ stmt.ownExprs, expr.Identified ∧ expr.Formed admits := by
  constructor
  · rintro ⟨names, counted, formed⟩
    obtain ⟨declared, used⟩ := List.forall_mem_append.mp names
    exact ⟨declared, counted, fun expr held =>
      ⟨fun name inside => used name (List.mem_flatMap.mpr ⟨expr, held, inside⟩), formed expr held⟩⟩
  · rintro ⟨declared, counted, readable⟩
    refine ⟨List.forall_mem_append.mpr ⟨declared, fun name inside => ?_⟩, counted,
      fun expr held => (readable expr held).2⟩
    obtain ⟨expr, held, inside⟩ := List.mem_flatMap.mp inside
    exact (readable expr held).1 name inside

end Stmt

namespace Module

theorem regular_legible_iff {module : RegularModule} :
    ((∀ name ∈ (regular module).names, isIdentifier name = true) ∧ (regular module).Formed admits) ↔
      isIdentifier module.name = true ∧
        (∀ port ∈ module.ports, isIdentifier port.name = true ∧ port.type.Counted admits) ∧
        ∀ part ∈ module.statements, part.Legible admits := by
  constructor
  · rintro ⟨names, counted, formed⟩
    obtain ⟨early, ofStatements⟩ := List.forall_mem_append.mp names
    obtain ⟨nameOk, ofPorts⟩ := List.forall_mem_cons.mp early
    refine ⟨nameOk, fun port inside => ⟨ofPorts _ (List.mem_map_of_mem inside), counted port inside⟩, ?_⟩
    exact fun part inside =>
      ⟨fun name holds => ofStatements name (List.mem_flatMap.mpr ⟨part, inside, holds⟩), formed part inside⟩
  · rintro ⟨nameOk, ports, legible⟩
    have early : ∀ name ∈ module.name :: module.ports.map Port.name, isIdentifier name = true :=
      List.forall_mem_cons.mpr ⟨nameOk, List.forall_mem_map.mpr fun port inside => (ports port inside).1⟩
    refine ⟨List.forall_mem_append.mpr ⟨early, fun name inside => ?_⟩,
      fun port inside => (ports port inside).2, fun part inside => (legible part inside).formed⟩
    obtain ⟨part, member, holds⟩ := List.mem_flatMap.mp inside
    exact (legible part member).names name holds

theorem external_legible_iff {module : ExternalModule} :
    ((∀ name ∈ (external module).names, isIdentifier name = true) ∧ (external module).Formed admits) ↔
      isIdentifier module.name = true ∧
        (∀ port ∈ module.ports, isIdentifier port.name = true ∧ port.type.Counted admits) ∧
        module.defname ≠ "" ∧ ∀ param ∈ module.params, param.name ≠ "" ∧ param.value.Admitted admits := by
  constructor
  · rintro ⟨names, counted, formed⟩
    obtain ⟨nameOk, ofPorts⟩ := List.forall_mem_cons.mp names
    exact ⟨nameOk, fun port inside => ⟨ofPorts _ (List.mem_map_of_mem inside), counted port inside⟩, formed⟩
  · rintro ⟨nameOk, ports, formed⟩
    refine ⟨List.forall_mem_cons.mpr
      ⟨nameOk, List.forall_mem_map.mpr fun port inside => (ports port inside).1⟩, ?_⟩
    exact ⟨fun port inside => (ports port inside).2, formed⟩

end Module

end CircuitNames
