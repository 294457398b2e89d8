import QuotaDesk.Json.Value
import QuotaDesk.Proofs.Json.Document
import QuotaDesk.Proofs.Json.Numeral
import QuotaDesk.Proofs.Json.Quoted

/-! Compact text read back. A value without reals is written as the tokens of one document, whose
numerals and strings stand for its integers and texts. -/

namespace QuotaDesk.Json

open Text

namespace Value

mutual

/-- The document that a value is written as. A real is the numeral that its text is. -/
def tree : Value → Tree
  | .null => .null
  | .bool b => .bool b
  | .integer n => .number (.ofInt n)
  | .real x => ((Numeral.ofBytes? (Utf8.encodeText x.jsonText)).map Tree.number).getD .null
  | .text s => .text (.ofText s)
  | .list items => .list (itemTrees items)
  | .record members => .record (memberTrees members)

def itemTrees : List Value → List Tree
  | [] => []
  | v :: rest => v.tree :: itemTrees rest

def memberTrees : List (String × Value) → List (Quoted × Tree)
  | [] => []
  | (name, v) :: rest => (.ofText name, v.tree) :: memberTrees rest

end

mutual

def isExact : Value → Bool
  | .real _ => false
  | .list items => areExactItems items
  | .record members => areExactMembers members
  | _ => true

def areExactItems : List Value → Bool
  | [] => true
  | v :: rest => v.isExact && areExactItems rest

def areExactMembers : List (String × Value) → Bool
  | [] => true
  | (_, v) :: rest => v.isExact && areExactMembers rest

end

theorem itemTrees_eq_map (items : List Value) : itemTrees items = items.map tree := by
  induction items with
  | nil => rfl
  | cons v rest ih => rw [itemTrees, ih, List.map_cons]

end Value

theorem atom?_number {bs : List UInt8} {n : Numeral} (h : Numeral.ofBytes? bs = some n) :
    atom? bs = some (.number n) := by
  have hword : ∀ word, Numeral.ofBytes? word = none → (bs == word) = false := by
    intro word hnone
    rw [beq_eq_false_iff_ne]
    rintro rfl
    rw [hnone] at h
    cases h
  rw [atom?, hword _ rfl, hword _ rfl, hword _ rfl, h]
  rfl

theorem mem_ofInt {n : Int} {c : Char} (h : c ∈ (Decimal.ofInt n).toList) :
    c = '-' ∨ 48 ≤ c.toNat ∧ c.toNat ≤ 57 := by
  unfold Decimal.ofInt at h
  split at h
  · rw [String.toList_append, List.mem_append] at h
    rcases h with h | h
    · exact .inl (List.mem_singleton.mp h)
    · exact .inr (Decimal.isDigit_of_mem (by simpa using h))
  · exact .inr (Decimal.isDigit_of_mem (by simpa using h))

theorem endsAtom_numeral : ∀ b : UInt8, b = 0x2D ∨ 48 ≤ b.toNat ∧ b.toNat ≤ 57 →
    endsAtom b = false :=
  Utf8.forall_byte (by decide +kernel)

theorem tokens?_ofInt (n : Int) :
    tokens? (Utf8.encodeText (Decimal.ofInt n)) = some [.number (.ofInt n)] := by
  have hnumeral := Numeral.ofBytes?_ofInt n
  have hascii : ∀ c ∈ (Decimal.ofInt n).toList, c.toNat < 0x80 := by
    intro c hc
    rcases mem_ofInt hc with rfl | hdigit
    · decide
    · omega
  have hrun : ∀ b ∈ Utf8.encodeText (Decimal.ofInt n), endsAtom b = false := by
    intro b hb
    rw [Utf8.encodeText, Utf8.encode_of_ascii hascii, List.mem_map] at hb
    obtain ⟨c, hc, rfl⟩ := hb
    refine endsAtom_numeral _ ((mem_ofInt hc).imp (fun h => by rw [h]; rfl) fun h => ?_)
    rwa [Utf8.toNat_ofNat_of_lt (by omega)]
  have hne : Utf8.encodeText (Decimal.ofInt n) ≠ [] := by
    intro hnil
    rw [hnil] at hnumeral
    cases hnumeral
  rw [tokens?_atom hne hrun, atom?_number hnumeral]
  rfl

namespace Value

theorem tokens?_printMember {v : Value}
    (h : tokens? (Utf8.encode v.print) = some v.tree.tokens) (name : String) :
    tokens? (Utf8.encode (quote name ++ ':' :: v.print)) =
      some (.text (.ofText name) :: .colon :: v.tree.tokens) := by
  have hcolon : Closed (Utf8.encodeChar ':') [.colon] := rfl
  rw [Utf8.encode_append, Utf8.encode_cons, (closed_quote name).tokens?_append,
    hcolon.tokens?_append, h]
  rfl

mutual

theorem tokens?_print : ∀ v : Value, v.isExact → tokens? (Utf8.encode v.print) = some v.tree.tokens
  | .null, _ => rfl
  | .bool true, _ => rfl
  | .bool false, _ => rfl
  | .integer n, _ => tokens?_ofInt n
  | .real _, h => absurd h Bool.false_ne_true
  | .text s, _ => (closed_quote s).tokens?
  | .list items, h => by
    have hopen : Closed (Utf8.encodeChar '[') [.openList] := rfl
    rw [print, Utf8.encode_cons, hopen.tokens?_append, tokens?_printItems items h]
    rfl
  | .record members, h => by
    have hopen : Closed (Utf8.encodeChar '\x7b') [.openRecord] := rfl
    rw [print, Utf8.encode_cons, hopen.tokens?_append, tokens?_printMembers members h]
    rfl

theorem tokens?_printItems : ∀ items : List Value, areExactItems items →
    tokens? (Utf8.encode (printItems items)) = some (Tree.itemTokens (itemTrees items))
  | [], _ => rfl
  | [v], h => by
    have hv : v.isExact := (Bool.and_eq_true_iff.mp h).1
    have hclose : Stops (Utf8.encode [']']) := by rintro _ ⟨⟩; rfl
    rw [printItems, Utf8.encode_append, tokens?_append hclose (tokens?_print v hv) rfl]
    rfl
  | v :: w :: rest, h => by
    obtain ⟨hv, hrest⟩ := Bool.and_eq_true_iff.mp h
    have hcomma : Closed (Utf8.encodeChar ',') [.comma] := rfl
    have hstops : Stops (Utf8.encode (',' :: printItems (w :: rest))) := by rintro _ ⟨⟩; rfl
    have htail : tokens? (Utf8.encode (',' :: printItems (w :: rest))) =
        some (.comma :: Tree.itemTokens (itemTrees (w :: rest))) := by
      rw [Utf8.encode_cons, hcomma.tokens?_append, tokens?_printItems (w :: rest) hrest]
      rfl
    rw [printItems, Utf8.encode_append, tokens?_append hstops (tokens?_print v hv) htail]
    rfl

theorem tokens?_printMembers : ∀ members : List (String × Value), areExactMembers members →
    tokens? (Utf8.encode (printMembers members)) = some (Tree.memberTokens (memberTrees members))
  | [], _ => rfl
  | [(name, v)], h => by
    have hv : v.isExact := (Bool.and_eq_true_iff.mp h).1
    have hclose : Stops (Utf8.encode ['\x7d']) := by rintro _ ⟨⟩; rfl
    rw [printMembers, Utf8.encode_append,
      tokens?_append hclose (tokens?_printMember (tokens?_print v hv) name) rfl]
    rfl
  | (name, v) :: m :: rest, h => by
    obtain ⟨hv, hrest⟩ := Bool.and_eq_true_iff.mp h
    have hcomma : Closed (Utf8.encodeChar ',') [.comma] := rfl
    have hstops : Stops (Utf8.encode (',' :: printMembers (m :: rest))) := by rintro _ ⟨⟩; rfl
    have htail : tokens? (Utf8.encode (',' :: printMembers (m :: rest))) =
        some (.comma :: Tree.memberTokens (memberTrees (m :: rest))) := by
      rw [Utf8.encode_cons, hcomma.tokens?_append, tokens?_printMembers (m :: rest) hrest]
      rfl
    rw [printMembers, Utf8.encode_append,
      tokens?_append hstops (tokens?_printMember (tokens?_print v hv) name) htail]
    rfl

end

theorem parse?_print {v : Value} (h : v.isExact) :
    Tree.parse? (Utf8.encode v.print) = some v.tree :=
  Tree.parse?_eq_some_iff.mpr (tokens?_print v h)

end Value
end QuotaDesk.Json
