import Qudit.Proofs.Deprecation.Visits

/-!
# The record of a run

What a run leaves for good is the messages noted under `warnOnce` and the warnings logged,
its **record**. Scopes and changes of the policy do not touch it, whether they begin or
end: it is made by the uses alone, one after the other. So the visits of a run form a
chain (`Visit.Follow`), and what is shown of the record of whole runs is shown by
induction along that list, where the nesting of the script does not appear any more.
-/

namespace Qudit

variable {β : Type}

/-- **What a run leaves for good.** -/
structure Record where
  /-- The messages noted under `warnOnce`. -/
  noted : List String
  /-- The warnings logged, the latest first. -/
  warnings : List Warning

namespace Registry

/-- The record that a registry holds. -/
def record (r : Registry) : Record := ⟨r.emitted, r.warnings⟩

@[simp] theorem settled_record (r : Registry) : r.settled.record = r.record := by
  simp [record]

end Registry

namespace Visit

/-- **Visits that follow each other**, from one record to another: each visit comes to the
record that the report of the one before it left. -/
inductive Follow : Record → List (Visit β) → Record → Prop where
  /-- Without visits the record stays. -/
  | nil (a : Record) : Follow a [] a
  /-- The visits after the first go on from what its report left. -/
  | cons {v : Visit β} {vs : List (Visit β)} {b : Record} (rest : Follow v.reported.record vs b) :
    Follow v.registry.record (v :: vs) b

namespace Follow

variable {vs ws : List (Visit β)} {a b c : Record}

theorem append (h : Follow a vs b) (hs : Follow b ws c) : Follow a (vs ++ ws) c := by
  induction h with
  | nil => exact hs
  | cons _ ih => exact .cons (ih hs)

/-- **The log grows by what the visits give**, and by nothing else. -/
theorem warnings_eq (h : Follow a vs b) :
    b.warnings = (vs.flatMap given).reverse ++ a.warnings := by
  induction h with
  | nil => rfl
  | @cons v vs b _ ih =>
    have hv : v.reported.record.warnings = v.given.reverse ++ v.registry.warnings :=
      v.warnings_reported
    rw [ih, hv, List.flatMap_cons, List.reverse_append, List.append_assoc]
    rfl

end Follow

end Visit

/-- **The visits of a run follow each other**, from the record that it begins with to the
one that it ends with. -/
theorem Script.follow_visits (cs : List (Command β)) (x : Place) (r : Registry) :
    Visit.Follow r.record (visits cs x r) (run cs r).2.record := by
  induction cs using Script.induction generalizing x r with
  | nil => exact .nil _
  | cons c cs hc hcs =>
    rw [visits_cons, run_cons]
    exact (hc x r).append (hcs _ _)
  | use u site ih =>
    obtain ⟨t, h⟩ | ⟨e, t, h⟩ := u.report_cases site r
    · have hreported : Visit.reported ⟨u, site, x, r⟩ = t := congrArg Prod.snd h
      rw [run_use_of_ok h, visits_use_of_ok x h]
      exact Visit.Follow.cons (v := ⟨u, site, x, r⟩) (hreported ▸ ih x t)
    · have hreported : Visit.reported ⟨u, site, x, r⟩ = t := congrArg Prod.snd h
      rw [run_use_of_error h, visits_use_of_error x h]
      exact Visit.Follow.cons (v := ⟨u, site, x, r⟩) (hreported ▸ .nil t.record)
  | policy =>
    show Visit.Follow r.record [] r.settled.record
    rw [Registry.settled_record]
    exact .nil _
  | setPolicy p =>
    rw [run_setPolicy]
    exact .nil _
  | within p body ih =>
    rw [visits_within, run_within]
    exact ih (x.inside p) { r with override := some p }
  | capture body ih =>
    rw [visits_capture, run_capture]
    exact ih x.capturing { r with captures := [] :: r.captures }

end Qudit
