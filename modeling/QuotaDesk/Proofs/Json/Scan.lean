import QuotaDesk.Json.Token

/-! Scanning in parts. The tokens of two pieces of text that follow each other are those of the
first and then those of the second, unless a word or a numeral runs on from one to the other.
Blanks between them make no token. -/

namespace QuotaDesk.Json

def Reading.after? : Reading → List UInt8 → Option (Reading × List Token)
  | r, [] => some (r, [])
  | r, b :: rest =>
    (r.step b).bind fun p => (p.1.after? rest).map fun q => (q.1, p.2 ++ q.2)

namespace Reading

variable {r : Reading} {bs cs : List UInt8}

theorem after?_append :
    r.after? (bs ++ cs) =
      (r.after? bs).bind fun p => (p.1.after? cs).map fun q => (q.1, p.2 ++ q.2) := by
  induction bs generalizing r with
  | nil =>
    simp only [List.nil_append, after?, Option.bind_some]
    exact Option.map_id'.symm
  | cons b bs ih =>
    simp only [List.cons_append, after?]
    rcases r.step b with _ | p
    · rfl
    · simp only [Option.bind_some, ih]
      rcases p.1.after? bs with _ | q
      · rfl
      · simp only [Option.bind_some, Option.map_some, Option.map_map]
        congr 1
        funext q'
        simp only [Function.comp, List.append_assoc]

theorem tokensFrom_eq (done : List Token) :
    tokensFrom r done bs =
      (r.after? bs).bind fun p => p.1.finish?.map fun last => done.reverse ++ (p.2 ++ last) := by
  induction bs generalizing r done with
  | nil => rfl
  | cons b bs ih =>
    simp only [tokensFrom, after?]
    rcases r.step b with _ | p
    · rfl
    · simp only [ih, Option.bind_some]
      rcases p.1.after? bs with _ | q
      · rfl
      · simp [List.append_assoc]

end Reading

theorem tokens?_eq (bs : List UInt8) :
    tokens? bs = (Reading.between.after? bs).bind fun p => p.1.finish?.map (p.2 ++ ·) :=
  Reading.tokensFrom_eq []

variable {bs cs : List UInt8} {ts us : List Token}

theorem tokens?_eq_some_iff : tokens? bs = some ts ↔
    ∃ r out last, Reading.between.after? bs = some (r, out) ∧ r.finish? = some last ∧
      out ++ last = ts := by
  simp [tokens?_eq, Option.bind_eq_some_iff]

/-- The text ends with a token that nothing can add to. -/
def Closed (bs : List UInt8) (ts : List Token) : Prop :=
  Reading.between.after? bs = some (.between, ts)

theorem Closed.tokens? (h : Closed bs ts) : tokens? bs = some ts :=
  tokens?_eq_some_iff.mpr ⟨_, _, [], h, rfl, List.append_nil ts⟩

theorem Closed.append (h : Closed bs ts) (h' : Closed cs us) : Closed (bs ++ cs) (ts ++ us) := by
  unfold Closed at *
  rw [Reading.after?_append, h, Option.bind_some, h', Option.map_some]

theorem Closed.tokens?_append (h : Closed bs ts) (cs : List UInt8) :
    Json.tokens? (bs ++ cs) = (Json.tokens? cs).map (ts ++ ·) := by
  unfold Closed at h
  rw [tokens?_eq, tokens?_eq, Reading.after?_append, h, Option.bind_some]
  rcases Reading.between.after? cs with _ | p
  · rfl
  · simp [List.append_assoc, Function.comp_def]

theorem closed_spaces (h : ∀ b ∈ bs, isSpace b = true) : Closed bs [] := by
  induction bs with
  | nil => rfl
  | cons b bs ih =>
    rw [List.forall_mem_cons] at h
    have hstep : Reading.between.step b = some (.between, []) := by
      simp only [Reading.step, atRest, h.1, if_true]
    unfold Closed at *
    rw [Reading.after?, hstep, Option.bind_some, ih h.2]
    rfl

def Stops (cs : List UInt8) : Prop :=
  ∀ b ∈ cs.head?, endsAtom b = true

theorem Reading.after?_atom (h : Stops cs) (hne : cs ≠ []) (seen : List UInt8) :
    (Reading.atom seen).after? cs = (atom? seen.reverse).bind fun t =>
      (Reading.between.after? cs).map fun q => (q.1, t :: q.2) := by
  obtain ⟨b, cs, rfl⟩ := List.exists_cons_of_ne_nil hne
  have hb : endsAtom b = true := h b rfl
  simp only [after?, step, hb, if_true]
  rcases atom? seen.reverse with _ | t
  · rfl
  · simp [Function.comp_def]

theorem tokens?_append (h : Stops cs) (hb : tokens? bs = some ts) (hc : tokens? cs = some us) :
    tokens? (bs ++ cs) = some (ts ++ us) := by
  obtain ⟨r, out, last, hafter, hfinish, rfl⟩ := tokens?_eq_some_iff.mp hb
  obtain ⟨r', out', last', hafter', hfinish', rfl⟩ := tokens?_eq_some_iff.mp hc
  rcases List.eq_nil_or_concat cs with rfl | ⟨_, _, hcons⟩
  · rw [List.append_nil, hb]
    cases hafter'
    cases hfinish'
    rw [List.append_nil, List.append_nil]
  have hne : cs ≠ [] := by simp [hcons]
  -- Only a word or a numeral is finished by what follows; nothing else may be left unfinished.
  cases r with
  | between =>
    cases hfinish
    have hclosed : Closed bs out := hafter
    rw [hclosed.tokens?_append, hc, List.append_nil]
    rfl
  | atom seen =>
    obtain ⟨t, ht, rfl⟩ := Option.map_eq_some_iff.mp hfinish
    refine tokens?_eq_some_iff.mpr ⟨r', out ++ t :: out', last', ?_, hfinish', by simp⟩
    rw [Reading.after?_append, hafter, Option.bind_some, Reading.after?_atom h hne, ht,
      Option.bind_some, hafter']
    rfl
  | quoted seen => cases hfinish
  | escape seen => cases hfinish
  | unit seen left value => cases hfinish

theorem after?_atomBytes {seen : List UInt8} (h : ∀ b ∈ bs, endsAtom b = false) :
    (Reading.atom seen).after? bs = some (.atom (bs.reverse ++ seen), []) := by
  induction bs generalizing seen with
  | nil => rfl
  | cons b bs ih =>
    rw [List.forall_mem_cons] at h
    simp only [Reading.after?, Reading.step, h.1, Bool.false_eq_true, if_false, Option.bind_some,
      ih h.2, Option.map_some, List.reverse_cons, List.append_assoc, List.singleton_append,
      List.append_nil]

theorem tokens?_atom (hne : bs ≠ []) (h : ∀ b ∈ bs, endsAtom b = false) :
    tokens? bs = (atom? bs).map ([·]) := by
  obtain ⟨b, bs, rfl⟩ := List.exists_cons_of_ne_nil hne
  rw [List.forall_mem_cons] at h
  have hstep : Reading.between.step b = some (.atom [b], []) := by
    simp only [endsAtom, Bool.or_eq_false_iff, Option.isSome_eq_false_iff] at h
    simp [Reading.step, atRest, h.1.1.1, Option.isNone_iff_eq_none.mp h.1.1.2, h.1.2]
  rw [tokens?_eq, Reading.after?, hstep, Option.bind_some, after?_atomBytes h.2]
  simp [Reading.finish?, Function.comp_def]

/-- The text falls into two parts at a place between tokens. -/
def Boundary (bs cs : List UInt8) : Prop :=
  ∃ ts us, tokens? bs = some ts ∧ tokens? cs = some us ∧ tokens? (bs ++ cs) = some (ts ++ us)

theorem Boundary.tokens?_spaced (h : Boundary bs cs) {spaces : List UInt8}
    (hs : ∀ b ∈ spaces, isSpace b = true) :
    tokens? (bs ++ (spaces ++ cs)) = tokens? (bs ++ cs) := by
  obtain ⟨ts, us, hb, hc, happend⟩ := h
  rcases spaces with _ | ⟨b, spaces⟩
  · rfl
  have hspaced : tokens? (b :: spaces ++ cs) = some us := by
    rw [(closed_spaces hs).tokens?_append, hc]
    rfl
  have hstops : Stops (b :: spaces ++ cs) := by
    rintro _ ⟨⟩
    simp [endsAtom, hs b List.mem_cons_self]
  rw [tokens?_append hstops hb hspaced, happend]

end QuotaDesk.Json
