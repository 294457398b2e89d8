import Mathlib.Logic.Relation
import QuotaDesk.Proofs.Json.Print
import QuotaDesk.Proofs.Wire.Edits
import QuotaDesk.Wire.Decode
import QuotaDesk.Wire.Encode

/-! Bodies that say the same. An answer depends on its body only up to blanks between tokens and
edits of the envelope, of its data and of the records in it. -/

namespace QuotaDesk.Wire

open Json (Tree Quoted Value)

inductive ItemEdit (edit : Tree → Tree → Prop) : Tree → Tree → Prop
  | mk {t t' : Tree} (h : edit t t') (before behind : List Tree) :
    ItemEdit edit (.list (before ++ t :: behind)) (.list (before ++ t' :: behind))

def SummaryEdit : Tree → Tree → Prop := Edit summaryFields fun _ _ _ => False
def RecordEdit : Tree → Tree → Prop := Edit recordFields fun _ _ _ => False
def PageEdit : Tree → Tree → Prop :=
  Edit pageFields fun s t t' => s = "items" ∧ ItemEdit RecordEdit t t'
def StatusEdit : Tree → Tree → Prop := Edit statusFields fun _ _ _ => False

def EnvelopeEdit (edit : Tree → Tree → Prop) : Tree → Tree → Prop :=
  Edit envelopeFields fun s t t' => s = "data" ∧ edit t t'

def Writes (body : List UInt8) (t : Tree) : Prop :=
  Json.tokens? body = some t.tokens

instance (body : List UInt8) (t : Tree) : Decidable (Writes body t) :=
  inferInstanceAs (Decidable (_ = _))

inductive BodyEdit (edit : Tree → Tree → Prop) : List UInt8 → List UInt8 → Prop
  | spaced {front back spaces : List UInt8} (h : Json.Boundary front back)
    (hspaces : ∀ b ∈ spaces, Json.isSpace b = true) :
    BodyEdit edit (front ++ back) (front ++ (spaces ++ back))
  | edited {body body' : List UInt8} {t t' : Tree} (h : Writes body t) (h' : Writes body' t')
    (hedits : Relation.EqvGen (EnvelopeEdit edit) t t') : BodyEdit edit body body'

/-- Bodies that any number of edits, made or undone, lead to. -/
def SameBody (edit : Tree → Tree → Prop) : List UInt8 → List UInt8 → Prop :=
  Relation.EqvGen (BodyEdit edit)

def Alike (a b : Option Tree) : Prop :=
  ∀ {α : Type} (read : Tree → Option α), nullable? read a = nullable? read b

theorem Alike.defaulted? {a b : Option Tree} (h : Alike a b) {α : Type} (default : α)
    (read : Tree → Option α) : Wire.defaulted? default read a = Wire.defaulted? default read b := by
  rw [Wire.defaulted?, Wire.defaulted?, h read]

theorem tolerant_alike : Tolerant (fun _ _ _ => False) fun _ => Alike where
  refl _ _ _ _ := rfl
  null _ _ _ := rfl
  inner h := h.elim

def AlikeBut {α : Type} (field : String) (read : Tree → Option α) (s : String)
    (a b : Option Tree) : Prop :=
  (s = field → nullable? read a = nullable? read b) ∧ (s ≠ field → Alike a b)

/-- A reader that an edit does not matter to. -/
structure Ignores {α : Type} (read : Tree → Option α) (edit : Tree → Tree → Prop) : Prop where
  ne_null : ∀ {t t'}, edit t t' → t ≠ .null ∧ t' ≠ .null
  read_eq : ∀ {t t'}, edit t t' → read t = read t'

variable {α : Type} {read : Tree → Option α} {edit : Tree → Tree → Prop}

theorem tolerant_alikeBut (h : Ignores read edit) (field : String) :
    Tolerant (fun s t t' => s = field ∧ edit t t') (AlikeBut field read) where
  refl _ _ := ⟨fun _ => rfl, fun _ _ _ => rfl⟩
  null _ := ⟨fun _ => rfl, fun _ _ _ => rfl⟩
  inner := by
    rintro s t t' ⟨hs, hedit⟩
    obtain ⟨ht, ht'⟩ := h.ne_null hedit
    refine ⟨fun _ => ?_, fun hne => absurd hs hne⟩
    rw [nullable?_of_ne_null ht, nullable?_of_ne_null ht', h.read_eq hedit]

theorem Edit.ne_null {names : List String} {inner : String → Tree → Tree → Prop} {t t' : Tree}
    (h : Edit names inner t t') : t ≠ .null ∧ t' ≠ .null := by
  cases h <;> exact ⟨nofun, nofun⟩

theorem ignores_summary : Ignores summary? SummaryEdit where
  ne_null h := h.ne_null
  read_eq {t t'} h := by
    have hfields := fields?_edit tolerant_alike h 0
    unfold summary?
    generalize fields? summaryFields 0 t = o at hfields
    generalize fields? summaryFields 0 t' = o' at hfields
    rcases hfields with ⟨_ | ⟨hstatus, _ | ⟨htotal, _ | ⟨hused, _ | ⟨hremaining,
      _ | ⟨hunlimited, _ | ⟨hexpiry, ⟨⟩⟩⟩⟩⟩⟩⟩⟩ | _
    · simp only [hstatus int64?, htotal int64?, hused int64?, hremaining int64?, hexpiry int64?,
        hunlimited.defaulted?]
    · rfl

theorem ignores_record : Ignores record? RecordEdit where
  ne_null h := h.ne_null
  read_eq {t t'} h := by
    have hfields := fields?_edit tolerant_alike h 0
    unfold record?
    generalize fields? recordFields 0 t = o at hfields
    generalize fields? recordFields 0 t' = o' at hfields
    rcases hfields with ⟨_ | ⟨htime, _ | ⟨hmodel, _ | ⟨hprompt, _ | ⟨hcompletion,
      _ | ⟨hcost, ⟨⟩⟩⟩⟩⟩⟩⟩ | _
    · simp only [htime.defaulted?, hmodel.defaulted?, hprompt.defaulted?, hcompletion.defaulted?,
        hcost int64?]
    · rfl

theorem ignores_items (h : Ignores read edit) : Ignores (items? read) (ItemEdit edit) where
  ne_null hedit := by
    cases hedit
    exact ⟨nofun, nofun⟩
  read_eq hedit := by
    cases hedit with
    | mk hitem before behind =>
      simp only [items?, List.mapM_append, List.mapM_cons, h.read_eq hitem]

theorem ignores_page : Ignores page? PageEdit where
  ne_null h := h.ne_null
  read_eq {t t'} h := by
    have hfields := fields?_edit (tolerant_alikeBut (ignores_items ignores_record) "items") h 0
    unfold page?
    generalize fields? pageFields 0 t = o at hfields
    generalize fields? pageFields 0 t' = o' at hfields
    rcases hfields with ⟨_ | ⟨hitems, _ | ⟨htotal, ⟨⟩⟩⟩⟩ | _
    · simp only [defaulted?, hitems.1 rfl, htotal.2 (by decide) word?]
    · rfl

theorem ignores_status : Ignores status? StatusEdit where
  ne_null h := h.ne_null
  read_eq {t t'} h := by
    have hfields := fields?_edit tolerant_alike h 0
    unfold status?
    generalize fields? statusFields 0 t = o at hfields
    generalize fields? statusFields 0 t' = o' at hfields
    rcases hfields with ⟨_ | ⟨henabled, _ | ⟨hsync, ⟨⟩⟩⟩⟩ | _
    · simp only [henabled.defaulted?, hsync text?]
    · rfl

theorem ignores_envelope (h : Ignores read edit) :
    Ignores (envelope? read) (EnvelopeEdit edit) where
  ne_null h := h.ne_null
  read_eq {t t'} hedit := by
    have hfields := fields?_edit (tolerant_alikeBut h "data") hedit 3
    unfold envelope?
    generalize fields? envelopeFields 3 t = o at hfields
    generalize fields? envelopeFields 3 t' = o' at hfields
    rcases hfields with ⟨_ | ⟨hsuccess, _ | ⟨hmessage, _ | ⟨hdata, ⟨⟩⟩⟩⟩⟩ | _
    · simp only [defaulted?, hsuccess.2 (by decide) bool?, hmessage.2 (by decide) text?,
        hdata.1 rfl]
    · rfl

def SummaryRepeats : Tree → Prop := Repeats summaryFields fun _ _ => False
def RecordRepeats : Tree → Prop := Repeats recordFields fun _ _ => False
def PageRepeats : Tree → Prop :=
  Repeats pageFields fun s t => s = "items" ∧ ∃ items, t = .list items ∧ ∃ u ∈ items, RecordRepeats u
def StatusRepeats : Tree → Prop := Repeats statusFields fun _ _ => False

def EnvelopeRepeats (repeated : Tree → Prop) : Tree → Prop :=
  Repeats envelopeFields fun s t => s = "data" ∧ repeated t

theorem fields?_repeats_nowhere {names : List String} {t : Tree}
    (h : Repeats names (fun _ _ => False) t) (required : Nat) :
    fields? names required t = none := by
  rcases hfields : fields? names required t with _ | fields
  · rfl
  · obtain ⟨_, _, _, hfalse⟩ := fields?_repeats h hfields
    exact hfalse.elim

theorem Repeats.ne_null {names : List String} {inner : String → Tree → Prop} {t : Tree}
    (h : Repeats names inner t) : t ≠ .null := by
  cases h <;> exact nofun

theorem summary?_repeats {t : Tree} (h : SummaryRepeats t) : summary? t = none := by
  rw [summary?, fields?_repeats_nowhere h]

theorem record?_repeats {t : Tree} (h : RecordRepeats t) : record? t = none := by
  rw [record?, fields?_repeats_nowhere h]

theorem status?_repeats {t : Tree} (h : StatusRepeats t) : status? t = none := by
  rw [status?, fields?_repeats_nowhere h]

theorem page?_repeats {t : Tree} (h : PageRepeats t) : page? t = none := by
  unfold page?
  split
  · next records total hfields =>
    obtain ⟨s, u, hmem, rfl, items, rfl, v, hv, hrepeats⟩ := fields?_repeats h hfields
    have hrecords : records = some (.list items) := by
      simpa [pageFields, eq_comm] using hmem
    have hitems : (items? record?) (.list items) = none :=
      mapM_eq_none hv (record?_repeats hrepeats)
    have hne : Tree.list items ≠ .null := nofun
    rw [hrecords, defaulted?, nullable?_of_ne_null hne, hitems]
    rfl
  · rfl

theorem envelope?_repeats {repeated : Tree → Prop} (hnull : ∀ {t}, repeated t → t ≠ .null)
    (hread : ∀ {t}, repeated t → read t = none) {t : Tree} (h : EnvelopeRepeats repeated t) :
    envelope? read t = none := by
  unfold envelope?
  split
  · next success message data hfields =>
    obtain ⟨s, u, hmem, rfl, hrepeated⟩ := fields?_repeats h hfields
    have hdata : data = some u := by
      simpa [envelopeFields, eq_comm] using hmem
    have hnone : nullable? read data = none := by
      rw [hdata, nullable?_of_ne_null (hnull hrepeated), hread hrepeated]
      rfl
    rw [hnone]
    rcases defaulted? false bool? success with _ | b
    · rfl
    · rcases nullable? text? message with _ | m <;> rfl
  · rfl

theorem writes_iff {body : List UInt8} {t : Tree} : Writes body t ↔ Tree.parse? body = some t :=
  Tree.parse?_eq_some_iff.symm

theorem writes_bytes {v : Value} (h : v.isExact) : Writes (bytes v) v.tree :=
  Value.tokens?_print v h

theorem answer_of_writes {body : List UInt8} {t : Tree} (h : Writes body t) (read : Tree → Option α)
    (status : Nat) :
    answer read status body =
      match envelope? read t with
      | some e => .ok e
      | none =>
        if 200 ≤ status ∧ status < 300 then .error (.transport "unreadable response")
        else .error (.transport ("HTTP " ++ Text.Decimal.ofNat status)) := by
  rcases he : envelope? read t with _ | e <;> rw [answer, writes_iff.mp h, Option.bind_some, he]

theorem eq_of_eqvGen {β γ : Type} {r : β → β → Prop} {a b : β} (hab : Relation.EqvGen r a b)
    (f : β → γ) (h : ∀ a b, r a b → f a = f b) : f a = f b := by
  induction hab with
  | rel _ _ hr => exact h _ _ hr
  | refl => rfl
  | symm _ _ _ ih => exact ih.symm
  | trans _ _ _ _ _ ih ih' => exact ih.trans ih'

theorem answer_bodyEdit (h : Ignores read edit) (status : Nat) {body body' : List UInt8}
    (hedit : BodyEdit edit body body') : answer read status body = answer read status body' := by
  cases hedit with
  | spaced hboundary hspaces =>
    rw [answer, answer, Tree.parse?, Tree.parse?, hboundary.tokens?_spaced hspaces]
  | edited hwrites hwrites' hedits =>
    have henvelope := eq_of_eqvGen hedits (envelope? read) fun _ _ => (ignores_envelope h).read_eq
    rw [answer_of_writes hwrites, answer_of_writes hwrites', henvelope]

theorem answer_repeats {repeated : Tree → Prop} (hnull : ∀ {t}, repeated t → t ≠ .null)
    (hread : ∀ {t}, repeated t → read t = none) {body : List UInt8} {t : Tree}
    (hwrites : Writes body t) (h : EnvelopeRepeats repeated t) (status : Nat) :
    ∃ f, answer read status body = .error f := by
  rw [answer_of_writes hwrites, envelope?_repeats hnull hread h]
  dsimp only
  split <;> exact ⟨_, rfl⟩

/-- What is said the same way is answered the same way, and what is said twice is not answered. -/
theorem answer_reworded (status : Nat) :
    (∀ body body', SameBody SummaryEdit body body' →
      answer summary? status body = answer summary? status body') ∧
    (∀ body body', SameBody PageEdit body body' →
      answer page? status body = answer page? status body') ∧
    (∀ body body', SameBody StatusEdit body body' →
      answer status? status body = answer status? status body') ∧
    (∀ body t, Writes body t → EnvelopeRepeats SummaryRepeats t →
      ∃ f, answer summary? status body = .error f) ∧
    (∀ body t, Writes body t → EnvelopeRepeats PageRepeats t →
      ∃ f, answer page? status body = .error f) ∧
    (∀ body t, Writes body t → EnvelopeRepeats StatusRepeats t →
      ∃ f, answer status? status body = .error f) := by
  refine ⟨fun _ _ h => ?_, fun _ _ h => ?_, fun _ _ h => ?_, fun _ _ hwrites h => ?_,
    fun _ _ hwrites h => ?_, fun _ _ hwrites h => ?_⟩
  · exact eq_of_eqvGen h _ fun _ _ => answer_bodyEdit ignores_summary status
  · exact eq_of_eqvGen h _ fun _ _ => answer_bodyEdit ignores_page status
  · exact eq_of_eqvGen h _ fun _ _ => answer_bodyEdit ignores_status status
  · exact answer_repeats Repeats.ne_null summary?_repeats hwrites h status
  · exact answer_repeats Repeats.ne_null page?_repeats hwrites h status
  · exact answer_repeats Repeats.ne_null status?_repeats hwrites h status

theorem answer_reworded_samples :
    answer page? 200 (bytes (.record [("data", .record [("items", .list [
        .record [("model_name", .text "m")]])])])) =
      answer page? 200 (bytes (.record [("x", .list [.integer 1]), ("data", .record [("items", .list [
        .record [("quota", .null), ("model_name", .text "m")]])])])) ∧
    answer summary? 200 (bytes (.record [("success", .bool true)])) =
      answer summary? 200 (0x20 :: bytes (.record [("success", .bool true)])) ∧
    answer status? 200 (bytes (.record [("data", .record []), ("success", .bool true)])) =
      answer status? 200 (bytes (.record [("success", .bool true), ("data", .record [])])) ∧
    (∃ f, answer page? 200 (bytes (.record [("data", .record [("items", .list [
      .record [("quota", .integer 1), ("quota", .integer 1)]])])])) = .error f) ∧
    (∃ f, answer summary? 200 (bytes (.record [("data", .record [("status", .integer 1),
      ("status", .integer 1)])])) = .error f) ∧
    (∃ f, answer status? 200 (bytes (.record [("success", .bool true),
      ("success", .bool true)])) = .error f) := by
  obtain ⟨hsummary, hpage, hstatus, hsummaryTwice, hpageTwice, hstatusTwice⟩ := answer_reworded 200
  refine ⟨hpage _ _ (.rel _ _ ?_), hsummary _ _ (.rel _ _ ?_), hstatus _ _ (.rel _ _ ?_),
    hpageTwice _ _ (writes_bytes rfl) ?_, hsummaryTwice _ _ (writes_bytes rfl) ?_,
    hstatusTwice _ _ (writes_bytes rfl) ?_⟩
  · have hrecord : RecordEdit (Value.record [("model_name", .text "m")]).tree
        (Value.record [("quota", .null), ("model_name", .text "m")]).tree :=
      .nulled rfl (by decide) rfl
    have hitems : PageEdit _ _ :=
      .within (Quoted.text?_ofText "items") ⟨rfl, .mk hrecord [] []⟩ []
    have hdata : EnvelopeEdit PageEdit _ _ :=
      .within (Quoted.text?_ofText "data") ⟨rfl, hitems⟩ []
    exact .edited (writes_bytes rfl) (writes_bytes rfl) (.trans _ _ _ (.rel _ _ hdata)
      (.rel _ _ (.added (Quoted.text?_ofText "x") (by decide) _ _)))
  · have hwrites : Writes (bytes (.record [("success", .bool true)])) _ := writes_bytes rfl
    exact @BodyEdit.spaced _ [] _ [0x20] ⟨[], _, rfl, hwrites, hwrites⟩
      (List.forall_mem_singleton.mpr rfl)
  · exact .edited (writes_bytes rfl) (writes_bytes rfl) (.rel _ _ (.permuted (.swap _ _ [])))
  · have hrecord : RecordRepeats
        (Value.record [("quota", .integer 1), ("quota", .integer 1)]).tree :=
      @Repeats.here _ _ "quota" (by decide) _ (by decide)
    have hitems : PageRepeats (Tree.record [(.ofText "items", .list [_])]) :=
      .within (Quoted.text?_ofText "items") (by decide)
        ⟨rfl, _, rfl, _, List.mem_cons_self, hrecord⟩ List.mem_cons_self
    exact .within (Quoted.text?_ofText "data") (by decide) ⟨rfl, hitems⟩ List.mem_cons_self
  · have hdata : SummaryRepeats
        (Value.record [("status", .integer 1), ("status", .integer 1)]).tree :=
      @Repeats.here _ _ "status" (by decide) _ (by decide)
    exact .within (Quoted.text?_ofText "data") (by decide) ⟨rfl, hdata⟩ List.mem_cons_self
  · exact @Repeats.here _ _ "success" (by decide) _ (by decide)

/-- A name with an unpaired surrogate is no text. It is none of the names of an envelope, and yet
no envelope is read where it stands. -/
theorem answer_illegible_name :
    ∃ name : Quoted,
      Writes (Text.Utf8.encodeText "\x7b\x7d") (.record []) ∧
      Writes (Text.Utf8.encodeText "\x7b\"\\ud83d\":null\x7d") (.record [(name, .null)]) ∧
      (∀ s ∈ envelopeFields, name.text? ≠ some s) ∧
      answer summary? 200 (Text.Utf8.encodeText "\x7b\x7d") = .ok ⟨false, none, none⟩ ∧
      answer summary? 200 (Text.Utf8.encodeText "\x7b\"\\ud83d\":null\x7d") =
        .error (.transport "unreadable response") := by
  have hempty : Writes (Text.Utf8.encodeText "\x7b\x7d") (.record []) := by decide +kernel
  have hnamed : Writes (Text.Utf8.encodeText "\x7b\"\\ud83d\":null\x7d")
      (.record [([.unit 0xD83D], .null)]) := by decide +kernel
  refine ⟨[.unit 0xD83D], hempty, hnamed, by decide, ?_, ?_⟩
  · rw [answer_of_writes hempty]
    rfl
  · rw [answer_of_writes hnamed]
    rfl

end QuotaDesk.Wire
