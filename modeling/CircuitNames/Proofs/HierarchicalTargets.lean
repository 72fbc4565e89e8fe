import CircuitNames.Proofs.RegularLedgers

namespace CircuitNames

open Ledger (endOfPath)

namespace Hop

/-- The path with another name for each instance and each module on it. An instance has its name in the
module that the hop before it leads to. -/
def renamedPath (names : Target → String) (circuit : String) : String → List Hop → List Hop
  | _, [] => []
  | parent, hop :: rest =>
    ⟨names (.inst ((ModuleTarget.mk circuit parent).inst hop.inst hop.ofModule)),
      names (.module ⟨circuit, hop.ofModule⟩)⟩ :: renamedPath names circuit hop.ofModule rest

/-- What a path goes through: each instance, then the module that it leads to. -/
def addresses (circuit : String) : String → List Hop → List Address
  | _, [] => []
  | parent, hop :: rest =>
    .inst ⟨circuit, parent⟩ hop.inst hop.ofModule :: .module ⟨circuit, hop.ofModule⟩ ::
      addresses circuit hop.ofModule rest

variable {circuit parent : String} {path : List Hop}

@[simp] theorem endOfPath_cons (hop : Hop) (rest : List Hop) :
    endOfPath parent (hop :: rest) = endOfPath hop.ofModule rest := by
  cases rest with
  | nil => rfl
  | cons next rest => simp [endOfPath, List.getLast?_cons]

theorem endOfPath_mem (parent : String) (path : List Hop) :
    endOfPath parent path ∈ parent :: path.flatMap fun hop => [hop.inst, hop.ofModule] := by
  induction path generalizing parent with
  | nil => exact List.mem_cons_self
  | cons hop rest ih =>
    have later := ih hop.ofModule
    rw [endOfPath_cons, List.flatMap_cons]
    exact List.mem_cons_of_mem _ (List.mem_cons_of_mem _ later)

/-- A renamed path ends in the module it led to, under its new name. -/
theorem endOfPath_renamedPath (names : Target → String) (circuit parent : String) (path : List Hop) :
    endOfPath (names (.module ⟨circuit, parent⟩)) (renamedPath names circuit parent path) =
      names (.module ⟨circuit, endOfPath parent path⟩) := by
  induction path generalizing parent with
  | nil => rfl
  | cons hop rest ih => rw [renamedPath, endOfPath_cons, endOfPath_cons, ih]

/-- To rename a path twice is to rename it once by a third function when this holds of all it goes through. -/
theorem renamedPath_renamedPath {first second names : Target → String}
    (each : ∀ part ∈ addresses circuit parent path, second (part.renamed first).target = names part.target) :
    renamedPath second (first (.circuit circuit)) (first (.module ⟨circuit, parent⟩))
      (renamedPath first circuit parent path) = renamedPath names circuit parent path := by
  induction path generalizing parent with
  | nil => rfl
  | cons hop rest ih =>
    obtain ⟨atInst, atModule, atRest⟩ := List.forall_mem_cons.mp each |>.imp_right List.forall_mem_cons.mp
    have later := ih atRest
    exact congrArg₂ List.cons (congrArg₂ Hop.mk atInst atModule) later

theorem names_of_mem_addresses {part : Address} (inside : part ∈ addresses circuit parent path) :
    ∀ name ∈ part.target.names, name = circuit ∨ name = parent ∨
      name ∈ path.flatMap fun hop => [hop.inst, hop.ofModule] := by
  induction path generalizing parent with
  | nil => cases inside
  | cons hop rest ih =>
    intro name holds
    simp only [List.flatMap_cons, List.mem_append, List.mem_cons, List.not_mem_nil, or_false]
    rcases List.mem_cons.mp inside with rfl | inside
    · simp only [Address.target, ModuleTarget.inst, Target.names, List.flatMap_nil, List.mem_cons,
        List.not_mem_nil, or_false] at holds
      tauto
    · rcases List.mem_cons.mp inside with rfl | inside
      · simp only [Address.target, Target.names, List.mem_cons, List.not_mem_nil, or_false] at holds
        tauto
      · rcases ih inside name holds with rfl | rfl | later <;> simp [*]

end Hop

/-- The module that the instance itself is declared in, at the end of the path. -/
def InstanceTarget.holder (target : InstanceTarget) : ModuleTarget :=
  ⟨target.circuit, endOfPath target.module target.path⟩

/-- The module at the end of the path, where the reference is declared. -/
def ReferenceTarget.holder (target : ReferenceTarget) : ModuleTarget :=
  ⟨target.circuit, endOfPath target.module target.path⟩

/-- The fields with another name for the first one. What lies deeper has a name of its own. -/
def ReferenceTarget.renamedFields (names : Target → String) (target : ReferenceTarget) : List String :=
  match target.fields with
  | [] => []
  | first :: inner => names (.reference ((target.holder.reference target.ref).field first)) :: inner

namespace Target

/-- The target with another name for each of its components. -/
def renamed (names : Target → String) : Target → Target
  | .circuit name => .circuit (names (.circuit name))
  | .module home => .module (home.renamed names)
  | .inst target => .inst
    { circuit := names (.circuit target.circuit)
      module := names (.module ⟨target.circuit, target.module⟩)
      path := Hop.renamedPath names target.circuit target.module target.path
      inst := names (.inst (target.holder.inst target.inst target.ofModule))
      ofModule := names (.module ⟨target.circuit, target.ofModule⟩) }
  | .reference target => .reference
    { circuit := names (.circuit target.circuit)
      module := names (.module ⟨target.circuit, target.module⟩)
      path := Hop.renamedPath names target.circuit target.module target.path
      ref := names (.reference (target.holder.reference target.ref))
      fields := target.renamedFields names }

/-- All that gives a target its names: the circuit, the module, every instance on the path with the module it
instantiates, and what is addressed in the last one. -/
def components : Target → List Address
  | .circuit name => [.circuit name]
  | .module home => [.circuit home.circuit, .module home]
  | .inst target => .circuit target.circuit :: .module ⟨target.circuit, target.module⟩ ::
      (Hop.addresses target.circuit target.module target.path ++
        [.inst target.holder target.inst target.ofModule, .module ⟨target.circuit, target.ofModule⟩])
  | .reference target => .circuit target.circuit :: .module ⟨target.circuit, target.module⟩ ::
      (Hop.addresses target.circuit target.module target.path ++
        .reference target.holder target.ref ::
          target.fields.head?.toList.map (.port target.holder target.ref))

theorem mem_components_inst {target : InstanceTarget} {part : Address}
    (inside : part ∈ Hop.addresses target.circuit target.module target.path) :
    part ∈ (inst target).components :=
  List.mem_cons_of_mem _ (List.mem_cons_of_mem _ (List.mem_append_left _ inside))

theorem mem_components_reference {target : ReferenceTarget} {part : Address}
    (inside : part ∈ Hop.addresses target.circuit target.module target.path) :
    part ∈ (reference target).components :=
  List.mem_cons_of_mem _ (List.mem_cons_of_mem _ (List.mem_append_left _ inside))

/-- To rename a target twice is to rename it once by a third function when this holds of each component. -/
theorem renamed_renamed {first second names : Target → String} {target : Target}
    (each : ∀ part ∈ target.components, second (part.renamed first).target = names part.target) :
    (target.renamed first).renamed second = target.renamed names := by
  cases target with
  | circuit name =>
    have own := List.forall_mem_singleton.mp each
    exact congrArg Target.circuit own
  | module home =>
    have main := each (.circuit home.circuit) (by simp [components])
    have own := each (.module home) (by simp [components])
    exact congrArg Target.module (congrArg₂ ModuleTarget.mk main own)
  | inst target =>
    have main := each (.circuit target.circuit) (by simp [components])
    have module := each (.module ⟨target.circuit, target.module⟩) (by simp [components])
    have own := each (.inst target.holder target.inst target.ofModule) (by simp [components])
    have callee := each (.module ⟨target.circuit, target.ofModule⟩) (by simp [components])
    have path := Hop.renamedPath_renamedPath fun part inside => each part (mem_components_inst inside)
    have ends := Hop.endOfPath_renamedPath first target.circuit target.module target.path
    simp only [Address.renamed, Address.target, ModuleTarget.renamed, InstanceTarget.holder]
      at main module own callee
    simp only [renamed, InstanceTarget.holder, main, module, path, ends, own, callee]
  | reference target =>
    have main := each (.circuit target.circuit) (by simp [components])
    have module := each (.module ⟨target.circuit, target.module⟩) (by simp [components])
    have own := each (.reference target.holder target.ref) (by simp [components])
    have path := Hop.renamedPath_renamedPath fun part inside => each part (mem_components_reference inside)
    have ends := Hop.endOfPath_renamedPath first target.circuit target.module target.path
    have field : ∀ name ∈ target.fields.head?,
        second ((Address.port target.holder target.ref name).renamed first).target =
        names (Address.port target.holder target.ref name).target := fun name isFirst =>
      each _ (by simp [components, Option.mem_def.mp isFirst])
    simp only [Address.renamed, Address.target, ModuleTarget.renamed, ReferenceTarget.holder]
      at main module own field
    cases fields : target.fields with
    | nil =>
      simp only [renamed, ReferenceTarget.renamedFields, ReferenceTarget.holder, main, module, path,
        ends, own, fields]
    | cons name inner =>
      have atFirst := field name (by simp [fields])
      simp only [renamed, ReferenceTarget.renamedFields, ReferenceTarget.holder, main, module, path,
        ends, own, fields, atFirst]

theorem names_of_mem_components {target : Target} {part : Address} (inside : part ∈ target.components) :
    ∀ name ∈ part.target.names, name ∈ target.names := by
  intro name holds
  cases target with
  | circuit main =>
    obtain rfl := List.mem_singleton.mp inside
    exact holds
  | module home =>
    simp only [components, List.mem_cons, List.not_mem_nil, or_false] at inside
    rcases inside with rfl | rfl
    · exact List.mem_cons.mpr (Or.inl (List.mem_singleton.mp holds))
    · exact holds
  | inst target =>
    have ends := Hop.endOfPath_mem target.module target.path
    simp only [components, List.mem_cons, List.mem_append, List.not_mem_nil, or_false] at inside
    simp only [names, List.mem_cons] at ends ⊢
    rcases inside with rfl | rfl | inside | rfl | rfl
    case inr.inr.inl =>
      have := Hop.names_of_mem_addresses inside name holds
      tauto
    all_goals
      simp only [Address.target, ModuleTarget.inst, InstanceTarget.holder, names,
        List.flatMap_nil, List.mem_cons, List.not_mem_nil, or_false] at holds
      grind
  | reference target =>
    have ends := Hop.endOfPath_mem target.module target.path
    have field : ∀ field ∈ target.fields.head?, field ∈ target.fields := fun _ => List.mem_of_mem_head?
    simp only [components, List.mem_cons, List.mem_append, List.mem_map, Option.mem_toList] at inside
    simp only [names, List.mem_cons, List.mem_append] at ends ⊢
    rcases inside with rfl | rfl | inside | rfl | ⟨port, isFirst, rfl⟩
    case inr.inr.inl =>
      have := Hop.names_of_mem_addresses inside name holds
      tauto
    all_goals
      simp only [Address.target, ModuleTarget.reference, ReferenceTarget.field, ReferenceTarget.holder, names,
        List.flatMap_nil, List.mem_cons, List.not_mem_nil, or_false, List.append_nil,
        List.nil_append] at holds
      grind

end Target

/-- To rename an address and spell it is to spell it and rename the target. -/
theorem Address.renamed_target (names : Target → String) (address : Address) :
    address.target.renamed names = (address.renamed names).target := by
  cases address <;> rfl

theorem Target.Identified.component {target : Target} (names : target.Identified) {part : Address}
    (inside : part ∈ target.components) : part.Identified :=
  fun name holds => names name (names_of_mem_components inside name holds)

theorem Hop.renamedPath_identified {given : Target → String} {circuit parent : String} {path : List Hop}
    (each : ∀ part ∈ addresses circuit parent path, isIdentifier (given part.target) = true) :
    ∀ name ∈ (renamedPath given circuit parent path).flatMap fun hop => [hop.inst, hop.ofModule],
      isIdentifier name = true := by
  induction path generalizing parent with
  | nil => exact List.forall_mem_nil _
  | cons hop rest ih =>
    obtain ⟨atInst, atModule, atRest⟩ := List.forall_mem_cons.mp each |>.imp_right List.forall_mem_cons.mp
    exact List.forall_mem_cons.mpr ⟨atInst, List.forall_mem_cons.mpr ⟨atModule, ih atRest⟩⟩

theorem Target.Identified.renamed {target : Target} (names : target.Identified) {given : Target → String}
    (each : ∀ target : Target, target.Identified → isIdentifier (given target) = true) :
    (target.renamed given).Identified := by
  have parts : ∀ part ∈ target.components, isIdentifier (given part.target) = true :=
    fun part inside => each _ (names.component inside)
  cases target with
  | circuit name => exact List.forall_mem_singleton.mpr (parts (.circuit name) List.mem_cons_self)
  | module home =>
    have main := parts (.circuit home.circuit) (by simp [components])
    have own := parts (.module home) (by simp [components])
    exact List.forall_mem_cons.mpr ⟨main, List.forall_mem_singleton.mpr own⟩
  | inst target =>
    have path := Hop.renamedPath_identified fun part inside => parts part (mem_components_inst inside)
    have main := parts (.circuit target.circuit) (by simp [components])
    have module := parts (.module ⟨target.circuit, target.module⟩) (by simp [components])
    have own := parts (.inst target.holder target.inst target.ofModule) (by simp [components])
    have callee := parts (.module ⟨target.circuit, target.ofModule⟩) (by simp [components])
    exact List.forall_mem_cons.mpr ⟨main, List.forall_mem_cons.mpr ⟨module, List.forall_mem_cons.mpr ⟨own,
      List.forall_mem_cons.mpr ⟨callee, path⟩⟩⟩⟩
  | reference target =>
    have path := Hop.renamedPath_identified fun part inside => parts part (mem_components_reference inside)
    have main := parts (.circuit target.circuit) (by simp [components])
    have module := parts (.module ⟨target.circuit, target.module⟩) (by simp [components])
    have own := parts (.reference target.holder target.ref) (by simp [components])
    have fields : ∀ name ∈ target.renamedFields given, isIdentifier name = true := by
      unfold ReferenceTarget.renamedFields
      split
      next => exact List.forall_mem_nil _
      next field inner isFields =>
        have first := parts (.port target.holder target.ref field) (by simp [components, isFields])
        refine List.forall_mem_cons.mpr ⟨first, fun name inside => names name ?_⟩
        simp [Target.names, isFields, inside]
    exact List.forall_mem_cons.mpr ⟨main, List.forall_mem_cons.mpr ⟨module, List.forall_mem_cons.mpr ⟨own,
      List.forall_mem_append.mpr ⟨fields, path⟩⟩⟩⟩

theorem Address.Identified.renamed {address : Address} (names : address.Identified) {given : Target → String}
    (each : ∀ target : Target, target.Identified → isIdentifier (given target) = true) :
    (address.renamed given).Identified := by
  rw [Address.Identified, ← Address.renamed_target]
  exact Target.Identified.renamed names each

namespace Ledger

variable {ledger : Ledger} (plain : ledger.Plain)
include plain

/-- A hop is followed to the names of its instance and of the instance's module. -/
theorem Plain.followHop_eq {home : ModuleTarget} {name callee : String}
    (names : (Address.inst home name callee).Identified) :
    ledger.followHop home.circuit home.module ⟨name, callee⟩ =
      .ok ⟨ledger.name (.inst (home.inst name callee)), ledger.name (.module ⟨home.circuit, callee⟩)⟩ := by
  have own := plain.nameOf_eq (names.component (Address.mem_components _))
  have below :=
    plain.nameOf_eq (names.component (show .module ⟨home.circuit, callee⟩ ∈ _ by simp [Address.components]))
  exact bind_eq_ok.mpr ⟨_, own, bind_eq_ok.mpr ⟨_, below, rfl⟩⟩

/-- A path is followed hop by hop, each from the module that the hop before it ends in. -/
theorem Plain.followPath_eq {circuit parent : String} {path : List Hop}
    (names : ∀ part ∈ Hop.addresses circuit parent path, part.Identified) :
    ledger.followPath circuit parent path = .ok (Hop.renamedPath ledger.name circuit parent path) := by
  induction path generalizing parent with
  | nil => rfl
  | cons hop rest ih =>
    obtain ⟨atHop, -, atRest⟩ := List.forall_mem_cons.mp names |>.imp_right List.forall_mem_cons.mp
    have first := plain.followHop_eq atHop
    have later := ih atRest
    exact bind_eq_ok.mpr ⟨_, first, bind_eq_ok.mpr ⟨_, later, rfl⟩⟩

/-- In a plain ledger every component is renamed on its own, and tracking a target renames it. -/
theorem Plain.track_renamed {target : Target} (names : ∀ part ∈ target.components, part.Identified) :
    ledger.track target = .ok (target.renamed ledger.name) := by
  have part : ∀ part ∈ target.components, ledger.nameOf part.target = .ok (ledger.name part.target) :=
    fun part inside => plain.nameOf_eq (names part inside)
  cases target with
  | circuit name =>
    have own := part (.circuit name) List.mem_cons_self
    exact congrArg (Except.map Target.circuit) own
  | module home =>
    have main := part (.circuit home.circuit) (by simp [Target.components])
    have own := part (.module home) (by simp [Target.components])
    exact bind_eq_ok.mpr ⟨_, main, bind_eq_ok.mpr ⟨_, own, rfl⟩⟩
  | inst target =>
    have main := part (.circuit target.circuit) (by simp [Target.components])
    have module := part (.module ⟨target.circuit, target.module⟩) (by simp [Target.components])
    have path := plain.followPath_eq fun part inside => names part (Target.mem_components_inst inside)
    have own : .inst target.holder target.inst target.ofModule ∈ (Target.inst target).components := by
      simp [Target.components]
    have last := plain.followHop_eq (names _ own)
    exact bind_eq_ok.mpr
      ⟨_, main, bind_eq_ok.mpr ⟨_, module, bind_eq_ok.mpr ⟨_, path, bind_eq_ok.mpr ⟨_, last, rfl⟩⟩⟩⟩
  | reference target =>
    have main := part (.circuit target.circuit) (by simp [Target.components])
    have module := part (.module ⟨target.circuit, target.module⟩) (by simp [Target.components])
    have path := plain.followPath_eq fun part inside => names part (Target.mem_components_reference inside)
    have own := part (.reference target.holder target.ref) (by simp [Target.components])
    obtain ⟨circuit, home, hops, ref, fields⟩ := target
    cases fields with
    | nil =>
      exact bind_eq_ok.mpr
        ⟨_, main, bind_eq_ok.mpr ⟨_, module, bind_eq_ok.mpr ⟨_, path, bind_eq_ok.mpr ⟨_, own, rfl⟩⟩⟩⟩
    | cons field inner =>
      have below := part (.port ⟨circuit, endOfPath home hops⟩ ref field)
        (by simp [Target.components, ReferenceTarget.holder])
      exact bind_eq_ok.mpr
        ⟨_, main, bind_eq_ok.mpr ⟨_, module, bind_eq_ok.mpr ⟨_, path, bind_eq_ok.mpr ⟨_, own,
        bind_eq_ok.mpr ⟨_, below, rfl⟩⟩⟩⟩⟩

end Ledger

end CircuitNames
