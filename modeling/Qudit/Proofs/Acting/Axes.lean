import Qudit.Acting.Scripted
import Qudit.Proofs.Acting.OwnSteps

/-!
# Axes are put back

Acting with an operation ends with the axes that it started with, whether it
succeeds, is refused or meets a fault, at whatever depth
(`acting_restores_axes`). The only place where axes are set is in taking an
operation apart, and there they are put back around everything that is done
to the parts; so nothing has to be known of the parts, and no induction over
the tree is needed. What is asked of a representation is that its own two
steps leave the axes alone.
-/

namespace Qudit

open Acting

variable {σ R α : Type}

/-- **A representation whose own steps leave the axes as they are.** -/
structure Representation.KeepsAxes (rep : Representation σ R) : Prop where
  /-- Measuring does. -/
  perform : Keeps Session.axes rep.perform
  /-- Applying a gate does. -/
  native : ∀ g, Keeps Session.axes (rep.native g)

theorem keeps_restoringAxes (run : Acting σ R α) : Keeps Session.axes (restoringAxes run) := by
  intro s
  rw [restoringAxes_apply]
  cases run s with
  | ok a s' => rfl
  | error e s' => rfl

/-- **Taking an operation apart puts the axes back**, whatever is done to its
parts. -/
theorem keeps_inParts (op : Operation R) (parts : List (Operation R × Acting σ R Unit)) :
    Keeps Session.axes (inParts op parts) := by
  unfold inParts
  refine .bind (fun _ => rfl) fun as => .check ?_
  refine .bind (Looks.keeps (checkDistinct_ends as)) fun _ => ?_
  exact .bind (keeps_restoringAxes _) fun _ => .pure _

theorem keeps_byParts (rep : Representation σ R) (op : Operation R) :
    Keeps Session.axes (byParts rep op) := by
  cases op with
  | gate g =>
    rw [byParts]
    cases g.parts with
    | none => exact .pure _
    | some flips => exact keeps_inParts _ _
  | measure m =>
    rw [byParts]
    exact .pure _
  | composite label qubits body =>
    rw [byParts]
    exact keeps_inParts _ _

/-- Refusing what has been declined leaves the axes as they are. -/
theorem keeps_orRefuse (op : Operation R) (o : Outcome) :
    Keeps Session.axes (match o with
      | .applied => return ()
      | .notImplemented => refuse (.cannotActOn op) : Acting σ R Unit) := by
  cases o with
  | applied => exact .pure _
  | notImplemented => exact .refuse _

namespace Representation.KeepsAxes

variable {rep : Representation σ R} (h : rep.KeepsAxes)

include h

theorem measureInto (key : String) (mask : List Bool) :
    Keeps Session.axes (measureInto rep key mask) := by
  unfold Qudit.measureInto
  refine .bind .get fun s => .check ?_
  refine .bind (fun _ => rfl) fun as => .check ?_
  refine .bind h.perform fun bits => ?_
  exact .bind (.ofExcept _) fun corrected => fun _ => rfl

theorem fallback (op : Operation R) : Keeps Session.axes (fallback rep op) := by
  cases op with
  | gate g =>
    refine .bind (h.native g) fun o => ?_
    cases o with
    | applied => exact .pure _
    | notImplemented => exact keeps_byParts rep _
  | measure m => exact keeps_byParts rep _
  | composite label qubits body => exact keeps_byParts rep _

theorem act (op : Operation R) : Keeps Session.axes (act rep op) := by
  cases op with
  | gate g => exact .bind (h.fallback (.gate g)) (keeps_orRefuse (.gate g))
  | measure m => exact .bind (fun _ => rfl) fun as => .check (h.measureInto _ _)
  | composite label qubits body =>
    exact .bind (h.fallback (.composite label qubits body)) (keeps_orRefuse _)

end Representation.KeepsAxes

/-! ## The registers -/

namespace StateVector

theorem keeps_onStateAndSource (run : EStateM Fault (State (Amplitude R) × Source) α) :
    Keeps Session.axes (onStateAndSource run) := by
  intro s
  unfold onStateAndSource
  cases run (s.register, s.source) with
  | ok a t => rfl
  | error f t => rfl

variable [Scalar R]

/-- The register of amplitudes leaves the axes as they are. -/
theorem keepsAxes : (representation : Representation (State (Amplitude R)) R).KeepsAxes where
  perform := .bind (Looks.keeps checkedAxes_ends) fun _ => keeps_onStateAndSource _
  native g := (keeps_native g).map Prod.fst

end StateVector

namespace BasisState

/-- The register of values leaves the axes as they are. -/
theorem keepsAxes : (representation : Representation (List Nat) R).KeepsAxes where
  perform := Looks.keeps perform_ends
  native g := Keeps.iff_ends.mpr fun s => (native_ends g s).mono
    (fun _ _ h => by obtain ⟨-, rfl⟩ | ⟨-, values, -, rfl⟩ := h <;> rfl) fun _ _ h => by rw [h.2]

end BasisState

namespace Scripted

/-- The register that follows a script leaves the axes as they are. -/
theorem keepsAxes : representation.KeepsAxes where
  perform := by
    refine .bind .get fun s => ?_
    split
    · exact .refuse _
    · exact .bind (fun _ => rfl) fun _ => .pure _
  native g := by
    refine .bind .get fun s => ?_
    split_ifs
    · exact .pure _
    · exact fun _ => rfl
    · exact .bind (fun _ => rfl) fun _ => .pure _

end Scripted

/-! ## Every way of acting -/

/-- **Every way of acting in a representation ends with the axes that it starts
with**, also where it fails. -/
structure Representation.RestoresAxes (rep : Representation σ R) : Prop where
  /-- Acting does. -/
  act : ∀ op, Keeps Session.axes (act rep op)
  /-- So does what a representation does with an operation. -/
  fallback : ∀ op, Keeps Session.axes (fallback rep op)
  /-- So does taking an operation apart. -/
  byParts : ∀ op, Keeps Session.axes (byParts rep op)

/-- **The axes are always put back**: whatever the operation, the axes and the
rest of the session, acting ends with the axes it started with, be it with
success, a refusal or a fault. This is so in every representation whose own
steps leave the axes alone, and in particular on amplitudes and on values. -/
theorem acting_restores_axes :
    (∀ (σ R : Type) (rep : Representation σ R), rep.KeepsAxes → rep.RestoresAxes) ∧
    (∀ (R : Type) [Scalar R],
      (StateVector.representation : Representation (State (Amplitude R)) R).RestoresAxes) ∧
    ∀ R : Type, (BasisState.representation : Representation (List Nat) R).RestoresAxes := by
  have hrep : ∀ (σ R : Type) (rep : Representation σ R), rep.KeepsAxes → rep.RestoresAxes :=
    fun σ R rep h => ⟨h.act, h.fallback, keeps_byParts rep⟩
  exact ⟨hrep, fun R _ => hrep _ R _ StateVector.keepsAxes,
    fun R => hrep _ R _ BasisState.keepsAxes⟩

/-- A key that is recorded again, two composites deep and on the axes of the
inner one: the refusal finds the axes of the outer one. -/
theorem acting_restores_axes_scripted :
    let op : Operation Float := .composite "outer" [5, 7] [.measure (.plain "m" [7]),
      .composite "inner" [7] [.measure (.plain "m" [7])]]
    let s : Session Scripted := ⟨⟨[[1]], true, [], []⟩, [1, 0], .empty, .ofWords #[]⟩
    Scripted.representation.KeepsAxes ∧
      (sessionAfter (act Scripted.representation op s)).axes = s.axes ∧
      act Scripted.representation op s = .error (.error (.duplicateKey "m"))
        ⟨⟨[], true, [], []⟩, [1, 0], ⟨[("m", [1])]⟩, .ofWords #[]⟩ := by
  intro op s
  have hkeeps := Scripted.keepsAxes
  exact ⟨hkeeps, (acting_restores_axes.1 _ _ _ hkeeps).act op s, rfl⟩

end Qudit
