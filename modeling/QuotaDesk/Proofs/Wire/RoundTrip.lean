import QuotaDesk.Proofs.Json.Print
import QuotaDesk.Proofs.Wire.Fields
import QuotaDesk.Wire.Decode
import QuotaDesk.Wire.Encode

/-! Answers written and read back. A reader undoes a writer when it takes the document that the
writer makes to what was written; this passes from numbers and texts to lists and records, and so
to the envelope of an answer. -/

namespace QuotaDesk.Wire

open Json (Tree Value Quoted)

/-- What is written has no real, is never null, and is read back. -/
structure Undoes {α : Type} (read : Tree → Option α) (write : α → Value) : Prop where
  isExact : ∀ a, (write a).isExact = true
  ne_null : ∀ a, (write a).tree ≠ .null
  read_write : ∀ a, read (write a).tree = some a

variable {α : Type} {read : Tree → Option α} {write : α → Value}

theorem namedMembers?_memberTrees (members : List (String × Value)) :
    namedMembers? (Value.memberTrees members) = some (members.map fun m => (m.1, m.2.tree)) := by
  induction members with
  | nil => rfl
  | cons m rest ih =>
    simp only [Value.memberTrees, namedMembers?, Quoted.text?_ofText, ih, List.map_cons]

theorem fields?_record (names : List String) (hnodup : names.Nodup)
    {members : List (String × Value)} (hnames : members.map Prod.fst = names) (required : Nat) :
    fields? names required (Value.record members).tree =
      some (members.map fun m => some m.2.tree) := by
  have htrees : ((members.map fun m => (m.1, m.2.tree)).map Prod.fst) = names := by
    rw [← hnames]
    simp
  rw [Value.tree, fields?, namedMembers?_memberTrees, Option.bind_some, ← hnames, List.mapM_map]
  refine mapM_eq_map fun m hm => ?_
  exact member?_of_mem (by rwa [htrees]) (List.mem_map.mpr ⟨m, hm, rfl⟩)

theorem nullable?_present (h : Undoes read write) (a : α) :
    nullable? read (some (write a).tree) = some (some a) := by
  rw [nullable?_of_ne_null (h.ne_null a), h.read_write a]
  rfl

theorem nullable?_option (h : Undoes read write) (o : Option α) :
    nullable? read (some (Value.option write o).tree) = some o := by
  cases o with
  | none => rfl
  | some a => exact nullable?_present h a

theorem defaulted?_present (h : Undoes read write) (default a : α) :
    defaulted? default read (some (write a).tree) = some a := by
  rw [defaulted?, nullable?_present h]
  rfl

theorem isExact_option (h : Undoes read write) (o : Option α) :
    (Value.option write o).isExact = true := by
  cases o with
  | none => rfl
  | some a => exact h.isExact a

theorem integer?_tree {n : Int} (hlow : -2 ^ 63 ≤ n) (hhigh : n < 2 ^ 64) :
    integer? (Value.integer n).tree = some n :=
  Json.Numeral.integer?_ofInt hlow hhigh

theorem undoes_int64 : Undoes int64? int64Value where
  isExact _ := rfl
  ne_null _ := nofun
  read_write n := by
    have hlow := n.le_toInt
    have hhigh := n.toInt_lt
    rw [int64?, int64Value, integer?_tree hlow (by omega), Option.bind_some, if_pos,
      Int64.ofInt_toInt]
    exact ⟨hlow, Int.le_of_lt_add_one hhigh⟩

theorem undoes_word : Undoes word? wordValue where
  isExact _ := rfl
  ne_null _ := nofun
  read_write n := by
    have hhigh := n.toNat_lt
    rw [word?, wordValue, integer?_tree (by omega) (by omega), Option.bind_some,
      if_pos (Int.natCast_nonneg _), Int.toNat_natCast, UInt64.ofNat_toNat]

theorem undoes_bool : Undoes bool? .bool where
  isExact _ := rfl
  ne_null _ := nofun
  read_write _ := rfl

theorem undoes_text : Undoes text? .text where
  isExact _ := rfl
  ne_null _ := nofun
  read_write s := Quoted.text?_ofText s

theorem areExactItems_map (h : Undoes read write) (l : List α) :
    Value.areExactItems (l.map write) = true := by
  induction l with
  | nil => rfl
  | cons a l ih => rw [List.map_cons, Value.areExactItems, h.isExact a, ih, Bool.and_self]

theorem undoes_items (h : Undoes read write) :
    Undoes (items? read) fun l => .list (l.map write) where
  isExact := areExactItems_map h
  ne_null _ := nofun
  read_write l := by
    rw [Value.tree, Value.itemTrees_eq_map, items?, List.map_map, List.mapM_map]
    exact (mapM_eq_map fun a _ => h.read_write a).trans (by rw [List.map_id'])

theorem ofCode_code (s : Quota.Status) : Quota.Status.ofCode s.code = s := by
  cases s <;> rfl

theorem undoes_summary : Undoes summary? summaryValue where
  isExact s := by
    simp only [summaryValue, Value.isExact, Value.areExactMembers, undoes_int64.isExact,
      isExact_option undoes_int64, Bool.and_self]
  ne_null _ := nofun
  read_write s := by
    have hfields : fields? summaryFields 0 (summaryValue s).tree = _ :=
      fields?_record summaryFields (by decide) rfl 0
    rw [summary?, hfields]
    simp only [List.map_cons, List.map_nil, nullable?_present undoes_int64,
      nullable?_option undoes_int64, defaulted?_present undoes_bool, Option.bind_eq_bind,
      Option.bind_some, Quota.Status.ofCode?, Option.map_some, Option.getD_some, ofCode_code]
    rfl

theorem undoes_record : Undoes record? recordValue where
  isExact r := by
    simp only [recordValue, Value.isExact, Value.areExactMembers, undoes_int64.isExact,
      undoes_word.isExact, isExact_option undoes_int64, Bool.and_self]
  ne_null _ := nofun
  read_write r := by
    have hfields : fields? recordFields 0 (recordValue r).tree = _ :=
      fields?_record recordFields (by decide) rfl 0
    rw [record?, hfields]
    simp only [List.map_cons, List.map_nil, defaulted?_present undoes_int64,
      defaulted?_present undoes_text, defaulted?_present undoes_word,
      nullable?_option undoes_int64, Option.bind_eq_bind, Option.bind_some]
    rfl

theorem undoes_page : Undoes page? pageValue where
  isExact p := by
    simp only [pageValue, Value.isExact, Value.areExactMembers, undoes_word.isExact,
      areExactItems_map undoes_record, Bool.and_self]
  ne_null _ := nofun
  read_write p := by
    have hfields : fields? pageFields 0 (pageValue p).tree = _ :=
      fields?_record pageFields (by decide) rfl 0
    rw [page?, hfields]
    simp only [List.map_cons, List.map_nil, defaulted?_present (undoes_items undoes_record),
      defaulted?_present undoes_word, Option.bind_eq_bind, Option.bind_some]
    rfl

theorem undoes_status : Undoes status? statusValue where
  isExact s := by
    simp only [statusValue, Value.isExact, Value.areExactMembers, isExact_option undoes_text,
      Bool.and_self]
  ne_null _ := nofun
  read_write s := by
    have hfields : fields? statusFields 0 (statusValue s).tree = _ :=
      fields?_record statusFields (by decide) rfl 0
    rw [status?, hfields]
    simp only [List.map_cons, List.map_nil, defaulted?_present undoes_bool,
      nullable?_option undoes_text, Option.bind_eq_bind, Option.bind_some]
    rfl

theorem undoes_envelope (h : Undoes read write) :
    Undoes (envelope? read) (envelopeValue write) where
  isExact e := by
    simp only [envelopeValue, Value.isExact, Value.areExactMembers, isExact_option undoes_text,
      isExact_option h, Bool.and_self]
  ne_null _ := nofun
  read_write e := by
    have hfields : fields? envelopeFields 3 (envelopeValue write e).tree = _ :=
      fields?_record envelopeFields (by decide) rfl 3
    rw [envelope?, hfields]
    simp only [List.map_cons, List.map_nil, defaulted?_present undoes_bool,
      nullable?_option undoes_text, nullable?_option h, Option.bind_eq_bind, Option.bind_some]
    rfl

theorem answer_bytes_of_undoes (h : Undoes read write) (status : Nat) (e : Envelope α) :
    answer read status (bytes (envelopeValue write e)) = .ok e := by
  have henvelope := undoes_envelope h
  rw [answer, bytes, Value.parse?_print (henvelope.isExact e), Option.bind_some,
    henvelope.read_write e]

/-- Whatever the status, an envelope that is sent is the one that is answered. -/
theorem answer_bytes_envelope (status : Nat) :
    (∀ e : Envelope Quota.Summary,
      answer summary? status (bytes (envelopeValue summaryValue e)) = .ok e) ∧
    (∀ e : Envelope Ledger.Page,
      answer page? status (bytes (envelopeValue pageValue e)) = .ok e) ∧
    (∀ e : Envelope Backup.Status,
      answer status? status (bytes (envelopeValue statusValue e)) = .ok e) :=
  ⟨answer_bytes_of_undoes undoes_summary status, answer_bytes_of_undoes undoes_page status,
    answer_bytes_of_undoes undoes_status status⟩

end QuotaDesk.Wire
