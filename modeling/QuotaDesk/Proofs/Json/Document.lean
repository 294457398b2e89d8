import QuotaDesk.Json.Tree

/-! Documents and their tokens. A sequence of tokens is read as a document exactly when it is the
sequence that writes the document. -/

namespace QuotaDesk.Json

namespace Tree

mutual

def tokens : Tree → List Token
  | .null => [.null]
  | .bool b => [.bool b]
  | .number n => [.number n]
  | .text q => [.text q]
  | .list items => .openList :: itemTokens items
  | .record members => .openRecord :: memberTokens members

def itemTokens : List Tree → List Token
  | [] => [.closeList]
  | [t] => t.tokens ++ [.closeList]
  | t :: u :: rest => t.tokens ++ .comma :: itemTokens (u :: rest)

def memberTokens : List (Quoted × Tree) → List Token
  | [] => [.closeRecord]
  | [(name, t)] => .text name :: .colon :: (t.tokens ++ [.closeRecord])
  | (name, t) :: m :: rest =>
    .text name :: .colon :: (t.tokens ++ .comma :: memberTokens (m :: rest))

end

end Tree

namespace Position

def readAll? (p : Position) (ts : List Token) : Option Position :=
  ts.foldlM step? p

theorem readAll?_cons {p q : Position} {token : Token} (h : p.step? token = some q)
    (ts : List Token) : p.readAll? (token :: ts) = q.readAll? ts := by
  simp only [readAll?, List.foldlM_cons, h]
  rfl

theorem readAll?_firstItem (stack : List Frame) (t : Tree) (rest : List Tree) (ts : List Token) :
    readAll? ⟨stack, .firstItem⟩ (Tree.itemTokens (t :: rest) ++ ts) =
      readAll? ⟨.items [] :: stack, .value⟩ (Tree.itemTokens (t :: rest) ++ ts) := by
  cases rest <;> cases t <;> rfl

theorem readAll?_firstMember (stack : List Frame) (m : Quoted × Tree)
    (rest : List (Quoted × Tree)) (ts : List Token) :
    readAll? ⟨stack, .firstName⟩ (Tree.memberTokens (m :: rest) ++ ts) =
      readAll? ⟨stack, .name []⟩ (Tree.memberTokens (m :: rest) ++ ts) := by
  cases rest <;> rfl

mutual

theorem readAll?_tokens (stack : List Frame) (ts : List Token) : ∀ t : Tree,
    readAll? ⟨stack, .value⟩ (t.tokens ++ ts) = readAll? ⟨stack, .separator t⟩ ts
  | .null => readAll?_cons rfl ts
  | .bool _ => readAll?_cons rfl ts
  | .number _ => readAll?_cons rfl ts
  | .text _ => readAll?_cons rfl ts
  | .list [] => rfl
  | .list (t :: rest) => by
    refine (readAll?_cons (q := ⟨stack, .firstItem⟩) rfl _).trans ?_
    refine (readAll?_firstItem stack t rest ts).trans ?_
    exact readAll?_itemTokens stack ts [] (t :: rest) (List.cons_ne_nil t rest)
  | .record [] => rfl
  | .record (m :: rest) => by
    refine (readAll?_cons (q := ⟨stack, .firstName⟩) rfl _).trans ?_
    refine (readAll?_firstMember stack m rest ts).trans ?_
    exact readAll?_memberTokens stack ts [] (m :: rest) (List.cons_ne_nil m rest)

theorem readAll?_itemTokens (stack : List Frame) (ts : List Token) (before : List Tree) :
    ∀ items : List Tree, items ≠ [] →
      readAll? ⟨.items before :: stack, .value⟩ (Tree.itemTokens items ++ ts) =
        readAll? ⟨stack, .separator (.list (before.reverse ++ items))⟩ ts
  | [], hne => absurd rfl hne
  | [t], _ => by
    rw [Tree.itemTokens, List.append_assoc, readAll?_tokens _ _ t]
    refine (readAll?_cons rfl ts).trans ?_
    rw [List.reverse_cons]
  | t :: u :: rest, _ => by
    rw [Tree.itemTokens, List.append_assoc, readAll?_tokens _ _ t]
    refine (readAll?_cons (q := ⟨.items (t :: before) :: stack, .value⟩) rfl _).trans ?_
    refine (readAll?_itemTokens stack ts (t :: before) (u :: rest)
      (List.cons_ne_nil u rest)).trans ?_
    rw [List.reverse_cons, List.append_assoc]
    rfl

theorem readAll?_memberTokens (stack : List Frame) (ts : List Token)
    (before : List (Quoted × Tree)) : ∀ members : List (Quoted × Tree), members ≠ [] →
      readAll? ⟨stack, .name before⟩ (Tree.memberTokens members ++ ts) =
        readAll? ⟨stack, .separator (.record (before.reverse ++ members))⟩ ts
  | [], hne => absurd rfl hne
  | [(name, t)], _ => by
    refine (readAll?_cons (q := ⟨stack, .colon before name⟩) rfl _).trans ?_
    refine (readAll?_cons (q := ⟨.members before name :: stack, .value⟩) rfl _).trans ?_
    refine (congrArg (readAll? _) (List.append_assoc t.tokens _ ts)).trans ?_
    refine (readAll?_tokens _ _ t).trans ((readAll?_cons rfl ts).trans ?_)
    rw [List.reverse_cons]
  | (name, t) :: m :: rest, _ => by
    refine (readAll?_cons (q := ⟨stack, .colon before name⟩) rfl _).trans ?_
    refine (readAll?_cons (q := ⟨.members before name :: stack, .value⟩) rfl _).trans ?_
    refine (congrArg (readAll? _) (List.append_assoc t.tokens _ ts)).trans ?_
    refine (readAll?_tokens _ _ t).trans ?_
    refine (readAll?_cons (q := ⟨stack, .name ((name, t) :: before)⟩) rfl _).trans ?_
    refine (readAll?_memberTokens stack ts ((name, t) :: before) (m :: rest)
      (List.cons_ne_nil m rest)).trans ?_
    rw [List.reverse_cons, List.append_assoc]
    rfl

end

def writtenItems (items : List Tree) : List Token :=
  items.flatMap fun t => t.tokens ++ [.comma]

def writtenMembers (members : List (Quoted × Tree)) : List Token :=
  members.flatMap fun m => .text m.1 :: .colon :: (m.2.tokens ++ [.comma])

def writtenFrame : Frame → List Token
  | .items before => .openList :: writtenItems before.reverse
  | .members before name =>
    .openRecord :: (writtenMembers before.reverse ++ [.text name, .colon])

def writtenExpect : Expect → List Token
  | .value => []
  | .firstItem => [.openList]
  | .firstName => [.openRecord]
  | .name before => .openRecord :: writtenMembers before.reverse
  | .colon before name => .openRecord :: (writtenMembers before.reverse ++ [.text name])
  | .separator t => t.tokens

def written (p : Position) : List Token :=
  p.stack.reverse.flatMap writtenFrame ++ writtenExpect p.expect

theorem itemTokens_concat (items : List Tree) (t : Tree) :
    Tree.itemTokens (items ++ [t]) = writtenItems items ++ (t.tokens ++ [.closeList]) := by
  induction items with
  | nil => rfl
  | cons u rest ih =>
    obtain ⟨v, more, hmore⟩ := List.exists_cons_of_ne_nil (List.concat_ne_nil t rest)
    rw [List.cons_append, hmore, Tree.itemTokens, ← hmore, ih]
    simp [writtenItems]

theorem memberTokens_concat (members : List (Quoted × Tree)) (name : Quoted) (t : Tree) :
    Tree.memberTokens (members ++ [(name, t)]) =
      writtenMembers members ++ .text name :: .colon :: (t.tokens ++ [.closeRecord]) := by
  induction members with
  | nil => rfl
  | cons m rest ih =>
    obtain ⟨m', more, hmore⟩ := List.exists_cons_of_ne_nil (List.concat_ne_nil (name, t) rest)
    rw [List.cons_append, hmore, Tree.memberTokens, ← hmore, ih]
    simp [writtenMembers]

theorem written_value? {stack : List Frame} {token : Token} {q : Position}
    (h : value? stack token = some q) :
    q.written = stack.reverse.flatMap writtenFrame ++ [token] := by
  cases token <;> cases h <;> rfl

theorem written_after? {stack : List Frame} {t : Tree} {token : Token} {q : Position}
    (h : after? stack t token = some q) :
    q.written = stack.reverse.flatMap writtenFrame ++ (t.tokens ++ [token]) := by
  cases token with
  | comma =>
    rcases stack with _ | ⟨before | ⟨before, name⟩, outer⟩ <;> cases h
    · simp [written, writtenExpect, writtenFrame, writtenItems]
    · simp [written, writtenExpect, writtenFrame, writtenMembers]
  | closeList =>
    rcases stack with _ | ⟨before | ⟨before, name⟩, outer⟩ <;> cases h
    simp [written, writtenExpect, writtenFrame, Tree.tokens, itemTokens_concat]
  | closeRecord =>
    rcases stack with _ | ⟨before | ⟨before, name⟩, outer⟩ <;> cases h
    simp [written, writtenExpect, writtenFrame, Tree.tokens, memberTokens_concat]
  | openList | openRecord | colon | null | bool | number | text => cases h

theorem written_step? {p q : Position} {token : Token} (h : p.step? token = some q) :
    q.written = p.written ++ [token] := by
  obtain ⟨stack, expect⟩ := p
  cases expect with
  | value => simpa [written, writtenExpect] using written_value? h
  | firstItem =>
    by_cases hclose : token = .closeList
    · subst hclose
      cases h
      simp [written, writtenExpect, Tree.tokens, Tree.itemTokens]
    · have hvalue : step? ⟨stack, .firstItem⟩ token = value? (.items [] :: stack) token := by
        cases token <;> first | rfl | exact absurd rfl hclose
      simpa [written, writtenExpect, writtenFrame, writtenItems] using
        written_value? (hvalue.symm.trans h)
  | firstName =>
    cases token with
    | closeRecord | text =>
      cases h
      simp [written, writtenExpect, writtenMembers, Tree.tokens, Tree.memberTokens]
    | _ => cases h
  | name before =>
    cases token with
    | text q =>
      cases h
      simp [written, writtenExpect]
    | _ => cases h
  | colon before name =>
    cases token with
    | colon =>
      cases h
      simp [written, writtenExpect, writtenFrame]
    | _ => cases h
  | separator t =>
    have hwritten := written_after? h
    rwa [← List.append_assoc] at hwritten

theorem written_readAll? {p q : Position} {ts : List Token} (h : p.readAll? ts = some q) :
    q.written = p.written ++ ts := by
  induction ts generalizing p with
  | nil =>
    cases h
    rw [List.append_nil]
  | cons token ts ih =>
    obtain ⟨p', hstep, hrest⟩ := Option.bind_eq_some_iff.mp h
    rw [ih hrest, written_step? hstep, List.append_assoc, List.singleton_append]

end Position

namespace Tree

theorem ofTokens?_tokens (t : Tree) : ofTokens? t.tokens = some t := by
  have hread := Position.readAll?_tokens [] [] t
  rw [List.append_nil] at hread
  unfold ofTokens?
  rw [show t.tokens.foldlM Position.step? Position.start = some ⟨[], .separator t⟩ from hread]
  rfl

theorem ofTokens?_eq_some_iff {ts : List Token} {t : Tree} :
    ofTokens? ts = some t ↔ ts = t.tokens := by
  refine ⟨fun h => ?_, fun h => h ▸ ofTokens?_tokens t⟩
  obtain ⟨⟨stack, expect⟩, hread, hdone⟩ := Option.bind_eq_some_iff.mp h
  have hwritten := Position.written_readAll? hread
  cases stack with
  | nil =>
    cases expect with
    | separator t' =>
      cases hdone
      exact hwritten.symm
    | _ => cases hdone
  | cons => cases hdone

theorem parse?_eq_some_iff {bytes : List UInt8} {t : Tree} :
    parse? bytes = some t ↔ tokens? bytes = some t.tokens := by
  simp [parse?, Option.bind_eq_some_iff, ofTokens?_eq_some_iff]

end Tree
end QuotaDesk.Json
