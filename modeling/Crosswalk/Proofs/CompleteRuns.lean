import Crosswalk.Proofs.Atomicity
import Crosswalk.Proofs.PartOrder

/-!
# Complete runs

Diagnostics are never taken back, so a run that ends without any has dropped no part: every part that
was left has been run to its end.
-/

namespace Crosswalk.Run

variable {p q : Part} {parts rest : List Part} {s t u : RunState}

/-- What was reported stays reported. -/
def Reports (s t : RunState) : Prop :=
  s.diagnostics <+: t.diagnostics

instance : IsPreorder RunState Reports where
  refl _ := List.prefix_rfl
  trans _ _ _ h h' := h.trans h'

theorem recover_reports (p : Part) (cause : DropCause) : Moves Reports (p.recover cause) := by
  intro s
  cases p with
  | mapping => exact refl (r := Reports) s
  | _ => exact List.prefix_append _ _

theorem opening_reports (p : Part) : Moves Reports p.opening := by
  intro s
  have hsame := diagnostics_opening p s
  exact ⟨[], by rw [hsame, List.append_nil]⟩

/-- Where all parts have been run, each part that was entered has been. -/
theorem Entered.exists_guarded_ok (h : Entered parts s q u)
    (ok : outcome (runAll parts) s = (.ok (), t)) : ∃ v, outcome q.guarded u = (.ok (), v) := by
  induction h generalizing t with
  | here p rest s =>
    obtain ⟨⟨⟩, v, hguarded, -⟩ := bind_ok.1 ok
    exact ⟨v, hguarded⟩
  | @inside p q rest parts s t₁ u opened h ih =>
    obtain ⟨⟨⟩, v, hguarded, -⟩ := bind_ok.1 ok
    rw [Part.guarded, outcome_tryCatch] at hguarded
    rcases hrun : outcome p.run s with ⟨e | ⟨⟩, w⟩ <;> rw [hrun] at hguarded
    · cases e with
      | drop cause => cases opened.symm.trans (opening_drop_of_run hrun)
      | abort e => cases hguarded
    · rw [p.run_eq] at hrun
      obtain ⟨parts', t₂, hopened, hall⟩ := bind_ok.1 hrun
      cases opened.symm.trans hopened
      exact ih hall
  | later ended h ih =>
    obtain ⟨⟨⟩, v, hguarded, hrest⟩ := bind_ok.1 ok
    cases ended.symm.trans hguarded
    exact ih hrest

end Crosswalk.Run

namespace Crosswalk.Engine

open Crosswalk.Run

variable {engine : Engine} {seed : List UInt8} {document : Xml.Document} {p : Part} {cause : DropCause}
  {s t : RunState}

/-- What was dropped is reported in the end. -/
theorem mem_diagnostics_of_drops (h : engine.Drops seed document p cause s t) :
    p.diagnostic cause ∈ (engine.final seed document).diagnostics := by
  have hguarded : after p.guarded s = after (p.recover cause) t := by
    rw [Part.guarded, after, outcome_tryCatch, h.dropped]
    rfl
  have hreported := (after_recover h.isUnit cause t).2
  have hkept : KeptAlong Reports (engine.parts document) (engine.start seed) :=
    ⟨fun q u _ => opening_reports q u, recover_reports⟩
  have hend := hkept.rel_guarded_end h.entered
  rw [← final_eq, Reports, hguarded, hreported] at hend
  exact hend.subset (List.mem_append_right _ List.mem_cons_self)

/-- Where there are no diagnostics in the end no part has been dropped. -/
theorem not_drops_of_diagnostics_eq_nil (complete : (engine.final seed document).diagnostics = []) :
    ¬engine.Drops seed document p cause s t := by
  intro h
  have hreported := mem_diagnostics_of_drops h
  rw [complete] at hreported
  cases hreported

/-- A part whose failure would have been reported has been run to its end. -/
theorem run_ok_of_guarded (complete : (engine.final seed document).diagnostics = [])
    (hp : engine.Enters seed document p s) (h : outcome p.guarded s = (.ok (), t)) :
    outcome p.run s = (.ok (), t) := by
  rw [Part.guarded, outcome_tryCatch] at h
  rcases hrun : outcome p.run s with ⟨e | ⟨⟩, u⟩ <;> rw [hrun] at h
  · cases e with
    | drop cause => exact absurd ⟨hp, hrun⟩ (not_drops_of_diagnostics_eq_nil complete)
    | abort e => cases h
  · exact h

theorem mappings_ne_drop {parts : List Part} (hparts : ∀ p ∈ parts, p.depth = 4) :
    outcome (runAll parts) s ≠ (.error (.drop cause), t) := by
  refine runAll_ne_drop_of fun p hp s h => ?_
  cases p with
  | mapping scene number m =>
    rw [guarded_mapping] at h
    exact isUnit_of_drop (p := .mapping scene number m) trivial h
  | _ => cases hparts _ hp

/-- A run that gives a report has found its mapping valid. -/
theorem validate_of_execute {report : Report} (h : engine.execute seed document = .ok report) :
    engine.validate = .ok () := by
  rw [execute] at h
  split at h
  · cases h
  next valid => exact valid

/-- A run that gives a report has run all its parts. -/
theorem runAll_ok_of_execute {report : Report} (h : engine.execute seed document = .ok report) :
    outcome (runAll (engine.parts document)) (engine.start seed) =
      (.ok (), engine.final seed document) := by
  have hfinal := final_eq engine seed document
  rcases hrun : outcome (runAll (engine.parts document)) (engine.start seed) with ⟨e | ⟨⟩, t⟩
  · cases e with
    | drop cause => exact absurd hrun (mappings_ne_drop fun p hp => depth_of_mem_parts hp)
    | abort e =>
      rw [execute] at h
      split at h
      · cases h
      · have haborted : (runMappings (engine.scene document) 1 engine.mapping.mappings).run
            (engine.start seed) = (.error (.abort e), t) := by
          rw [runMappings_eq]
          exact hrun
        dsimp only at h
        rw [scene, start] at haborted
        rw [haborted] at h
        cases h
  · rw [hfinal, after_eq hrun]

/-- A run that gives a report has opened every part that it entered, or has dropped it. -/
theorem opens_or_drops {report : Report} (h : engine.execute seed document = .ok report)
    (hp : engine.Enters seed document p s) :
    (∃ opened t, outcome p.opening s = (.ok opened, t)) ∨
      ∃ cause t, engine.Drops seed document p cause s t := by
  obtain ⟨u, hguarded⟩ := Entered.exists_guarded_ok hp (runAll_ok_of_execute h)
  rw [Part.guarded, outcome_tryCatch] at hguarded
  rcases hrun : outcome p.run s with ⟨e | ⟨⟩, t⟩ <;> rw [hrun] at hguarded
  · cases e with
    | drop cause => exact .inr ⟨cause, t, hp, hrun⟩
    | abort e => cases hguarded
  · rw [p.run_eq] at hrun
    obtain ⟨opened, v, hopened, -⟩ := bind_ok.1 hrun
    exact .inl ⟨opened, v, hopened⟩

end Crosswalk.Engine
