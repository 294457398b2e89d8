import QuotaDesk.Proofs.Backup.KeptSettings
import QuotaDesk.Proofs.Backup.SingleFlight
import QuotaDesk.Proofs.Controller.Course

/-! Saving settings. The updates go out one after another, each when the one before has been
accepted, and the first that is not accepted ends the save. -/

namespace QuotaDesk.Backup.Panel

def writeFault? : Except Fault (Envelope Json.Value) → Option Fault
  | .error _ => some (.transport saveUnreachable)
  | .ok e =>
    if e.success then none
    else some (.logical ("failed to save configuration: " ++ e.messageOr updateRejected))

theorem writeFault?_eq_some_iff {a : Except Fault (Envelope Json.Value)} {f : Fault} :
    writeFault? a = some f ↔
      (∃ g, a = .error g ∧ f = .transport saveUnreachable) ∨
        ∃ e, a = .ok e ∧ e.success = false ∧
          f = .logical ("failed to save configuration: " ++ e.messageOr updateRejected) := by
  rcases a with g | e
  · simp only [writeFault?, Option.some.injEq, Except.error.injEq, reduceCtorEq, false_and,
      exists_false, or_false, exists_eq_left']
    exact eq_comm
  · cases h : e.success with
    | true => simp [writeFault?, h]
    | false =>
      simp only [writeFault?, h, Bool.false_eq_true, if_false, Option.some.injEq, reduceCtorEq,
        Except.ok.injEq, false_and, exists_false, false_or, exists_eq_left', true_and]
      exact eq_comm

theorem resumeSave_eq (rest : List (String × String)) (a : Except Fault (Envelope Json.Value)) :
    resumeSave rest a =
      match writeFault? a with
      | none => saveRest rest
      | some f => .finished (.error f) := by
  rcases a with g | e
  · rfl
  · cases h : e.success <;> simp [resumeSave, settle, writeFault?, saveFault, h]

def updateCall (u : String × String) : Call :=
  .update u.1 u.2

def Accepts (u : String × String) (r : Reply) : Prop :=
  writeFault? (r (.update u.1 u.2)) = none

/-- How far a save of `updates` has come: some are written and the next one is open, or the last
one issued has failed. -/
inductive Saving (updates : List (String × String)) :
    List Call → List Reply → Progress controller.Waiting controller.Outcome → Prop
  | going {written rest : List (String × String)} {replies : List Reply}
      (h : updates = written ++ rest) (hwritten : List.Forall₂ Accepts written replies) :
      Saving updates ((written ++ rest.take 1).map updateCall) replies (lift .save (saveRest rest))
  | failed {written rest : List (String × String)} {u : String × String} {replies : List Reply}
      {r : Reply} {f : Fault} (h : updates = written ++ u :: rest)
      (hwritten : List.Forall₂ Accepts written replies)
      (hf : writeFault? (r (.update u.1 u.2)) = some f) :
      Saving updates ((written ++ [u]).map updateCall) (replies ++ [r])
        (.finished ⟨.save, .error f⟩)

variable {calls : List Call} {replies : List Reply}
  {p : Progress controller.Waiting controller.Outcome} {c : Config}

theorem opens_saveRest (updates : List (String × String)) :
    controller.opens (lift .save (saveRest updates)) = (updates.take 1).map updateCall := by
  cases updates <;> rfl

theorem Saving.of_waiting {updates : List (String × String)} {x : controller.Waiting}
    (h : Saving updates calls replies (.waiting x)) :
    ∃ written u rest, updates = written ++ u :: rest ∧ List.Forall₂ Accepts written replies ∧
      calls = (written ++ [u]).map updateCall ∧ x = ⟨.save, .update u.1 u.2 rest⟩ := by
  generalize hp : Progress.waiting x = p at h
  cases h with
  | @going written rest _ h hwritten =>
    cases rest with
    | nil => cases hp
    | cons u rest => exact ⟨written, u, rest, h, hwritten, rfl, Progress.waiting.inj hp⟩
  | failed => cases hp

theorem Saving.answer {updates written rest : List (String × String)} {u : String × String}
    (h : updates = written ++ u :: rest) (hwritten : List.Forall₂ Accepts written replies)
    (r : Reply) :
    Saving updates ((written ++ [u]).map updateCall ++
        controller.opens (lift .save (resumeSave rest (r (.update u.1 u.2)))))
      (replies ++ [r]) (lift .save (resumeSave rest (r (.update u.1 u.2)))) := by
  rw [resumeSave_eq]
  cases hf : writeFault? (r (.update u.1 u.2)) with
  | none =>
    have hsplit : updates = (written ++ [u]) ++ rest := by simp [h]
    rw [opens_saveRest, ← List.map_append]
    exact .going hsplit (List.rel_append hwritten (.cons hf .nil))
  | some f =>
    rw [show controller.opens (lift .save (.finished (.error f))) = [] from rfl, List.append_nil]
    exact .failed h hwritten hf

theorem saving_of_course (hc : c.Acceptable) (h : Course controller (.save c) calls replies p) :
    Saving c.kept.updates calls replies p := by
  induction h with
  | start s =>
    have hstart : (controller.start (.save c) s).2 = lift .save (saveRest c.kept.updates) := by
      rw [← Config.savedForm_eq]
      simp [controller, start, startSave, hc.1, hc.2]
    rw [hstart, opens_saveRest]
    exact .going rfl .nil
  | @resume calls replies x h reply s ih =>
    obtain ⟨written, u, rest, hupdates, hwritten, rfl, rfl⟩ := ih.of_waiting
    exact Saving.answer hupdates hwritten reply

namespace Saving

variable {updates : List (String × String)} {j : Nat}

def Answered (updates : List (String × String)) (replies : List Reply) (j : Nat)
    (a : Except Fault (Envelope Json.Value)) : Prop :=
  ∃ u r, updates[j]? = some u ∧ replies[j]? = some r ∧ a = r (.update u.1 u.2)

theorem Answered.unique {a b : Except Fault (Envelope Json.Value)}
    (ha : Answered updates replies j a) (hb : Answered updates replies j b) : a = b := by
  obtain ⟨u, r, hu, hr, rfl⟩ := ha
  obtain ⟨u', r', hu', hr', rfl⟩ := hb
  obtain rfl := Option.some.inj (hu.symm.trans hu')
  obtain rfl := Option.some.inj (hr.symm.trans hr')
  rfl

theorem Answered.lt {a : Except Fault (Envelope Json.Value)} (h : Answered updates replies j a) :
    j < replies.length := by
  obtain ⟨u, r, _, hr, _⟩ := h
  exact (List.getElem?_eq_some_iff.mp hr).1

theorem answered_last {written : List (String × String)} (h : List.Forall₂ Accepts written replies)
    (u : String × String) (rest : List (String × String)) (r : Reply) :
    Answered (written ++ u :: rest) (replies ++ [r]) written.length (r (.update u.1 u.2)) := by
  refine ⟨u, r, ?_, ?_, rfl⟩
  · simp
  · simp [h.length_eq]

theorem answered_of_accepts {written : List (String × String)}
    (h : List.Forall₂ Accepts written replies) (hj : j < written.length)
    (rest : List (String × String)) (more : List Reply) :
    ∃ a, Answered (written ++ rest) (replies ++ more) j a ∧ writeFault? a = none := by
  have hj' : j < replies.length := h.length_eq ▸ hj
  refine ⟨_, ⟨written[j], replies[j], ?_, ?_, rfl⟩, h.get hj hj'⟩
  · rw [List.getElem?_append_left hj, List.getElem?_eq_getElem hj]
  · rw [List.getElem?_append_left hj', List.getElem?_eq_getElem hj']

theorem accepted (h : Saving updates calls replies p) (hj : j + 1 < calls.length) :
    ∃ a, Answered updates replies j a ∧ writeFault? a = none := by
  cases h with
  | @going written rest _ h hwritten =>
    subst h
    have hlt : j < written.length := by
      have hle := List.length_take_le 1 rest
      simp only [List.length_map, List.length_append] at hj
      omega
    have hanswered := answered_of_accepts hwritten hlt rest []
    rwa [List.append_nil] at hanswered
  | @failed written rest u _ r _ h hwritten _ =>
    subst h
    have hlt : j < written.length := by simpa using hj
    exact answered_of_accepts hwritten hlt (u :: rest) [r]

theorem finished_error_iff (h : Saving updates calls replies p) {f : Fault} :
    p = .finished ⟨.save, .error f⟩ ↔
      ∃ j a, calls.length = j + 1 ∧ Answered updates replies j a ∧ writeFault? a = some f := by
  cases h with
  | @going written rest _ h hwritten =>
    subst h
    have hne : lift .save (saveRest rest) ≠ .finished ⟨.save, .error f⟩ := by
      cases rest <;> simp [saveRest, lift]
    refine iff_of_false hne ?_
    rintro ⟨j, a, -, ha, hf⟩
    have hlt : j < written.length := hwritten.length_eq ▸ ha.lt
    obtain ⟨b, hb, hnone⟩ := answered_of_accepts hwritten hlt rest []
    rw [List.append_nil] at hb
    rw [ha.unique hb, hnone] at hf
    cases hf
  | @failed written rest u _ r f' h hwritten hf =>
    subst h
    have hlast := answered_last hwritten u rest r
    constructor
    · intro heq
      cases heq
      exact ⟨_, _, by simp, hlast, hf⟩
    · rintro ⟨j, a, hj, ha, hf'⟩
      obtain rfl : written.length = j := by simpa using hj
      rw [ha.unique hlast, hf] at hf'
      rw [Option.some.inj hf']

end Saving

theorem start_save_refused (hc : ¬c.Acceptable) (s : State) :
    (controller.start (.save c) s).2 =
      .finished ⟨.save, .error (.validation configRequired)⟩ := by
  have hstart : startSave c = .finished (.error (.validation configRequired)) := by
    rw [Config.not_acceptable_iff, ← Bool.or_eq_true] at hc
    rw [startSave, if_pos hc]
  exact congrArg (lift .save) hstart

section Runs

variable {updates : List (String × String)} {es : List (Event controller)} {k n : Nat}
  {r : Request}

end Runs

end QuotaDesk.Backup.Panel
