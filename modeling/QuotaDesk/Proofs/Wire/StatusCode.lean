import Mathlib.Data.List.Basic
import QuotaDesk.Proofs.Wire.Rewording

/-! The status of a key in an answer. A status may be absent, null or an integer of 64 bits, and
every integer that is no known code is the unknown status. Anything else in its place leaves the
whole answer unread. -/

namespace QuotaDesk.Wire

open Json (Tree Quoted Value)

section Member

variable {names : List String} {s : String} {i : Nat}

theorem mapM_set {f g : String → Option (Option Tree)} {v : Tree} (hnodup : names.Nodup)
    (hs : names[i]? = some s) (hf : f s = some none) (hg : g s = some (some v))
    (hne : ∀ s' ≠ s, g s' = f s') :
    names.mapM g = (names.mapM f).map fun fields => fields.set i (some v) := by
  induction names generalizing i with
  | nil => cases hs
  | cons s' names ih =>
    obtain ⟨hfirst, hrest⟩ := List.nodup_cons.mp hnodup
    rw [List.mapM_cons, List.mapM_cons]
    cases i with
    | zero =>
      cases hs
      have hsame : names.mapM g = names.mapM f :=
        mapM_congr fun s' hs' => hne s' fun heq => hfirst (heq ▸ hs')
      rw [hf, hg, hsame]
      rcases names.mapM f with _ | fields <;> rfl
    | succ i =>
      have hs' : s' ≠ s := by
        rintro rfl
        exact hfirst (List.mem_of_getElem? hs)
      rw [hne s' hs', ih hrest hs]
      rcases f s' with _ | a
      · rfl
      · rcases names.mapM f with _ | fields <;> rfl

theorem length_fields? {members : List (Quoted × Tree)} {required : Nat}
    {fields : List (Option Tree)} (h : fields? names required (.record members) = some fields) :
    fields.length = names.length := by
  obtain ⟨named, -, hfields⟩ := Option.bind_eq_some_iff.mp h
  exact length_of_mapM hfields

theorem fields?_member (hnodup : names.Nodup) (hs : names[i]? = some s) {name : Quoted}
    (hname : name.text? = some s) {before behind : List (Quoted × Tree)}
    (habsent : occurrences s (before ++ behind) = 0) (v : Tree) (required : Nat) :
    fields? names required (.record (before ++ (name, v) :: behind)) =
      (fields? names required (.record (before ++ behind))).map
        fun fields => fields.set i (some v) := by
  rw [fields?_perm List.perm_middle]
  simp only [fields?]
  rw [namedMembers?_cons hname]
  rcases hnamed : namedMembers? (before ++ behind) with _ | named
  · rfl
  · have hnone : named.filter (fun m => m.1 == s) = [] := by
      rw [← List.length_eq_zero_iff, length_filter_of_namedMembers? hnamed, habsent]
    refine mapM_set hnodup hs ?_ ?_ fun s' hne => member?_cons_of_ne hne.symm v named
    · rw [member?, hnone]
    · rw [member?_cons_self, hnone]
      rfl

end Member

/-- What stands around the data of an envelope, written as a record or as a list. -/
inductive Wrapping
  | record (before : List (Quoted × Tree)) (name : Quoted) (behind : List (Quoted × Tree))
  | list (success message : Tree)

namespace Wrapping

def around : Wrapping → Tree → Tree
  | .record before name behind, t => .record (before ++ (name, t) :: behind)
  | .list success message, t => .list [success, message, t]

def Named : Wrapping → Prop
  | .record _ name _ => name.text? = some "data"
  | .list _ _ => True

end Wrapping

variable {α : Type} {read : Tree → Option α}

def head? (success message : Option Tree) : Option (Bool × Option String) := do
  let success ← defaulted? false bool? success
  let message ← nullable? text? message
  return (success, message)

theorem envelope?_of_fields {t : Tree} {success message data : Option Tree}
    (h : fields? envelopeFields 3 t = some [success, message, data]) :
    envelope? read t = (head? success message).bind fun head =>
      (nullable? read data).map fun d => ⟨head.1, head.2, d⟩ := by
  rw [envelope?, h]
  simp only [head?]
  rcases defaulted? false bool? success with _ | b
  · rfl
  · rcases nullable? text? message with _ | m
    · rfl
    · rcases nullable? read data with _ | d <;> rfl

theorem exists_head (read : Tree → Option α) (w : Wrapping) (hw : w.Named) :
    ∃ head : Option (Bool × Option String), ∀ t, envelope? read (w.around t) =
      head.bind fun h => (nullable? read (some t)).map fun d => ⟨h.1, h.2, d⟩ := by
  cases w with
  | list success message =>
    exact ⟨head? (some success) (some message), fun t => envelope?_of_fields rfl⟩
  | record before name behind =>
    have hdata : envelopeFields[2]? = some "data" := rfl
    by_cases habsent : occurrences "data" (before ++ behind) = 0
    · have hmember := fun t => fields?_member (by decide) hdata hw habsent t 3
      rcases hfields : fields? envelopeFields 3 (.record (before ++ behind)) with _ | fields
      · refine ⟨none, fun t => ?_⟩
        rw [Wrapping.around, envelope?, hmember, hfields]
        rfl
      · obtain ⟨success, message, data, rfl⟩ := List.length_eq_three.mp (length_fields? hfields)
        refine ⟨head? success message, fun t => envelope?_of_fields ?_⟩
        rw [Wrapping.around, hmember, hfields]
        rfl
    · refine ⟨none, fun t => ?_⟩
      have htwice : 2 ≤ occurrences "data" (before ++ (name, t) :: behind) := by
        unfold occurrences at habsent ⊢
        rw [List.perm_middle.countP_eq, List.countP_cons, if_pos (beq_iff_eq.mpr hw)]
        omega
      rw [Wrapping.around, envelope?, fields?_repeats_nowhere (.here (by decide) htwice)]
      rfl

def statusOf (k : Int) : Quota.Status :=
  if k = 1 then .normal else if k = 2 then .disabled else if k = 3 then .expired
  else if k = 4 then .exhausted else .unknown

def FitsInt64 (k : Int) : Prop :=
  -2 ^ 63 ≤ k ∧ k < 2 ^ 63

instance (k : Int) : Decidable (FitsInt64 k) :=
  inferInstanceAs (Decidable (_ ∧ _))

theorem int64?_eq (t : Tree) :
    int64? t = (integer? t).bind fun k => if FitsInt64 k then some (Int64.ofInt k) else none := by
  have hrange (k : Int) : Int64.minValue.toInt ≤ k ∧ k ≤ Int64.maxValue.toInt ↔ FitsInt64 k := by
    have hmin : Int64.minValue.toInt = -2 ^ 63 := rfl
    have hmax : Int64.maxValue.toInt = 2 ^ 63 - 1 := rfl
    rw [hmin, hmax, FitsInt64, Int.le_sub_one_iff]
  simp only [int64?, hrange]

theorem ofCode_ofInt {k : Int} (h : FitsInt64 k) :
    Quota.Status.ofCode (Int64.ofInt k) = statusOf k := by
  have hk : (Int64.ofInt k).toInt = k := Int64.toInt_ofInt_of_le h.1 h.2
  have hcode (n : Int64) (hne : k ≠ n.toInt) : Int64.ofInt k ≠ n := by
    rintro rfl
    exact hne hk.symm
  unfold statusOf
  split_ifs with h1 h2 h3 h4
  · rw [h1]
    rfl
  · rw [h2]
    rfl
  · rw [h3]
    rfl
  · rw [h4]
    rfl
  · unfold Quota.Status.ofCode
    split
    · exact absurd ‹_› (hcode 1 h1)
    · exact absurd ‹_› (hcode 2 h2)
    · exact absurd ‹_› (hcode 3 h3)
    · exact absurd ‹_› (hcode 4 h4)
    · rfl

theorem exists_of_length_six {β : Type} :
    ∀ {l : List β}, l.length = 6 → ∃ a b c d e f, l = [a, b, c, d, e, f]
  | [a, b, c, d, e, f], _ => ⟨a, b, c, d, e, f, rfl⟩

theorem summary?_status {name : Quoted} (hname : name.text? = some "status")
    {before behind : List (Quoted × Tree)} (habsent : occurrences "status" (before ++ behind) = 0)
    (v : Tree) :
    summary? (.record (before ++ (name, v) :: behind)) =
      (summary? (.record (before ++ behind))).bind fun s =>
        (nullable? int64? (some v)).map fun code =>
          { s with status := Quota.Status.ofCode? code } := by
  -- An absent status reads as null, so both records have the same names.
  have hnull : summary? (.record (before ++ behind)) =
      summary? (.record (before ++ (name, .null) :: behind)) :=
    (ignores_summary.read_eq (.nulled hname (by decide) habsent)).trans
      (ignores_summary.read_eq (.permuted List.perm_middle.symm))
  have hstatus : summaryFields[0]? = some "status" := rfl
  have hmember := fun t => fields?_member (by decide) hstatus hname habsent t 0
  rw [hnull, summary?, summary?, hmember, hmember]
  rcases hfields : fields? summaryFields 0 (.record (before ++ behind)) with _ | fields
  · rfl
  · obtain ⟨status, total, used, remaining, unlimited, expiry, rfl⟩ :=
      exists_of_length_six (length_fields? hfields)
    have hread : nullable? int64? (some .null) = some none := rfl
    simp only [Option.map_some, List.set_cons_zero, hread]
    rcases nullable? int64? (some v) with _ | code
    · simp
    · simp only [Option.bind_eq_bind, Option.bind_some, Option.bind_assoc, Option.map_some,
        Option.pure_def]

theorem answer_eq_ok_iff {body : List UInt8} {t : Tree} (h : Writes body t) {http : Nat}
    {e : Envelope α} : answer read http body = .ok e ↔ envelope? read t = some e := by
  rw [answer_of_writes h]
  split
  · rename_i e' he
    rw [he]
    exact ⟨fun h => congrArg some (Except.ok.inj h), fun h => congrArg Except.ok (Option.some.inj h)⟩
  · rename_i he
    rw [he]
    split <;> exact ⟨nofun, nofun⟩

theorem exists_error_of_envelope? {body : List UInt8} {t : Tree} (h : Writes body t) (http : Nat)
    (hnone : envelope? read t = none) : ∃ f, answer read http body = .error f := by
  rcases ha : answer read http body with f | e
  · exact ⟨f, rfl⟩
  · rw [answer_eq_ok_iff h, hnone] at ha
    cases ha

/-- A status of null or an integer of 64 bits is read, and says nothing about the other fields.
Any other status leaves nothing of the answer. -/
theorem answer_status (w : Wrapping) (hw : w.Named) {name : Quoted}
    (hname : name.text? = some "status") {before behind : List (Quoted × Tree)}
    (habsent : occurrences "status" (before ++ behind) = 0) (v : Tree) {body body' : List UInt8}
    (hbody : Writes body (w.around (.record (before ++ behind))))
    (hbody' : Writes body' (w.around (.record (before ++ (name, v) :: behind)))) (http : Nat)
    {success : Bool} {message : Option String} {s : Quota.Summary}
    (hvalid : answer summary? http body = .ok ⟨success, message, some s⟩) :
    (v = .null →
      answer summary? http body' = .ok ⟨success, message, some { s with status := .unknown }⟩) ∧
    (∀ k, integer? v = some k → FitsInt64 k →
      answer summary? http body' = .ok ⟨success, message, some { s with status := statusOf k }⟩) ∧
    (v ≠ .null → (∀ k, integer? v = some k → ¬ FitsInt64 k) →
      ∃ f, answer summary? http body' = .error f) := by
  obtain ⟨head, hhead⟩ := exists_head summary? w hw
  have hdata (members : List (Quoted × Tree)) :
      nullable? summary? (some (.record members)) = (summary? (.record members)).map some :=
    nullable?_of_ne_null nofun
  rw [answer_eq_ok_iff hbody, hhead, hdata] at hvalid
  obtain ⟨⟨success, message⟩, rfl, hvalid⟩ := Option.bind_eq_some_iff.mp hvalid
  obtain ⟨data, hs, hvalid⟩ := Option.map_eq_some_iff.mp hvalid
  cases hvalid
  obtain ⟨s, hs, heq⟩ := Option.map_eq_some_iff.mp hs
  cases heq
  have hread : envelope? summary? (w.around (.record (before ++ (name, v) :: behind))) =
      (nullable? int64? (some v)).map fun code =>
        ⟨success, message, some { s with status := Quota.Status.ofCode? code }⟩ := by
    rw [hhead, hdata, summary?_status hname habsent, hs]
    simp only [Option.bind_some, Option.map_map]
    rfl
  refine ⟨?_, fun k hk hfits => ?_, fun hne hinteger => ?_⟩
  · rintro rfl
    rw [answer_eq_ok_iff hbody', hread]
    rfl
  · have hne : v ≠ .null := by
      rintro rfl
      cases hk
    rw [answer_eq_ok_iff hbody', hread, nullable?_of_ne_null hne, int64?_eq, hk, Option.bind_some,
      if_pos hfits]
    simp only [Option.map_some, Quota.Status.ofCode?, Option.getD_some, ofCode_ofInt hfits]
  · refine exists_error_of_envelope? hbody' http ?_
    rw [hread, nullable?_of_ne_null hne, int64?_eq]
    rcases hk : integer? v with _ | k
    · rfl
    · rw [Option.bind_some, if_neg (hinteger k hk)]
      rfl

theorem answer_status_two :
    answer summary? 200 (bytes (.record [("data", .record [("total_quota", .integer 7),
        ("status", .integer 2)])])) =
      .ok ⟨false, none, some ⟨.disabled, some 7, none, none, false, none⟩⟩ := by
  have hbody : Writes (bytes (.record [("data", .record [("total_quota", .integer 7)])])) _ :=
    writes_bytes rfl
  have hbody' : Writes (bytes (.record [("data", .record [("total_quota", .integer 7),
      ("status", .integer 2)])])) _ :=
    writes_bytes rfl
  have hvalid : answer summary? 200 _ =
      .ok ⟨false, none, some ⟨.unknown, some 7, none, none, false, none⟩⟩ :=
    (answer_eq_ok_iff hbody).mpr rfl
  have hdata : (Quoted.ofText "data").text? = some "data" := Quoted.text?_ofText _
  have habsent : occurrences "status"
      ([(Quoted.ofText "total_quota", (Value.integer 7).tree)] ++ []) = 0 := by
    decide
  obtain ⟨-, hinteger, -⟩ := answer_status (.record [] (.ofText "data") []) hdata
    (Quoted.text?_ofText "status") habsent (Value.integer 2).tree hbody hbody' 200 hvalid
  exact hinteger 2 rfl (by decide)

/-- A status above the integers of 64 bits is in an answer that is not read. Without it, the
answer is read. -/
theorem answer_status_too_large :
    answer summary? 200 (bytes (.record [("success", .bool true), ("data", .record [])])) =
        .ok ⟨true, none, some ⟨.unknown, none, none, none, false, none⟩⟩ ∧
      answer summary? 200 (bytes (.record [("success", .bool true),
        ("data", .record [("status", .integer 9223372036854775808)])])) =
          .error (.transport "unreadable response") := by
  refine ⟨(answer_eq_ok_iff (writes_bytes rfl)).mpr rfl, ?_⟩
  rw [answer_of_writes (writes_bytes rfl)]
  rfl

end QuotaDesk.Wire
