import QuotaDesk.Dashboard.Route
import QuotaDesk.Dashboard.Message
import QuotaDesk.Proofs.Text.Split
import QuotaDesk.Proofs.Text.Blank

/-! Addresses under a base path without captures. Every route answers at one address: the home
page at the base itself, every other page at its name behind the base and one slash. The pages
write the same address unless the base ends in several slashes, all of which they drop. -/

namespace QuotaDesk.Dashboard

def Unreserved (c : Char) : Prop :=
  c.isAlphanum = true ∨ c ∈ ['-', '.', '_', '~']
  deriving Decidable

def PlainPath (path : String) : Prop :=
  ∀ c ∈ path.toList, c = '/' ∨ Unreserved c

instance (path : String) : Decidable (PlainPath path) :=
  List.decidableBAll (fun c => c = '/' ∨ Unreserved c) path.toList

variable {base : Base}

theorem unescape_of_braceless {cs : List Char} (h : ∀ c ∈ cs, c ≠ '\x7b' ∧ c ≠ '\x7d') :
    unescape cs = cs.map fun c => (c, false) := by
  induction cs with
  | nil => rfl
  | cons c cs ih =>
    rw [List.forall_mem_cons] at h
    rw [unescape, ih h.2, List.map_cons]
    · rintro rest rfl -
      exact h.1.1 rfl
    · rintro rest rfl -
      exact h.1.2 rfl

theorem parts?_of_braceless {cs : List Char} (h : ∀ c ∈ cs, c ≠ '\x7b' ∧ c ≠ '\x7d') :
    parts? .outside (cs.map fun c => (c, false)) = some (literal cs) := by
  induction cs with
  | nil => rfl
  | cons c cs ih =>
    rw [List.forall_mem_cons] at h
    rw [List.map_cons, parts?, if_neg (by decide), if_neg h.1.2, if_neg h.1.1, ih h.2]
    rfl

theorem PlainPath.braceless {path : String} (h : PlainPath path) :
    ∀ c ∈ path.toList, c ≠ '\x7b' ∧ c ≠ '\x7d' := by
  intro c hc
  constructor <;> rintro rfl <;> exact absurd (h _ hc) (by decide)

theorem pattern_eq_literal (h : PlainPath base.path) : base.pattern = literal base.path.toList := by
  have hvalid := base.valid
  rw [basePattern?, unescape_of_braceless h.braceless, parts?_of_braceless h.braceless] at hvalid
  split at hvalid
  · cases hvalid
  · split at hvalid
    · cases hvalid
    · exact (Option.some.inj (Option.filter_eq_some_iff.mp hvalid).1).symm

theorem Base.head?_path (base : Base) : base.path.toList.head? = some '/' := by
  by_contra h
  have hvalid := base.valid
  rw [basePattern?, if_pos h] at hvalid
  cases hvalid

theorem matchesFrom_literal (cs path : List Char) : matchesFrom (literal cs) path = (cs == path) := by
  induction cs generalizing path with
  | nil => cases path <;> rfl
  | cons c cs ih =>
    cases path with
    | nil => rfl
    | cons d path => simp [literal, matchesFrom, ← ih]

theorem path_eq {address : String} (hslash : address.toList.head? = some '/')
    (hmarks : '#' ∉ address.toList ∧ '?' ∉ address.toList) (method : String) {query : List Char}
    (hfragment : '#' ∉ query) (hquery : query = [] ∨ query.head? = some '?') :
    ({ method, target := address ++ String.ofList query } : Request).path = address := by
  have htarget : (address ++ String.ofList query).toList = address.toList ++ query := by simp
  have hcut : (Text.cut '#' (address.toList ++ query)).1 = address.toList ++ query := by
    rw [Text.cut_of_not_mem (by simpa using ⟨hmarks.1, hfragment⟩)]
  have hhead : (address.toList ++ query).head? = some '/' := by simp [List.head?_append, hslash]
  have hpath : (Text.cut '?' (address.toList ++ query)).1 = address.toList := by
    rcases hquery with rfl | hquery
    · rw [List.append_nil, Text.cut_of_not_mem hmarks.2]
    · obtain ⟨rest, rfl⟩ := List.head?_eq_some_iff.mp hquery
      rw [Text.cut_append_cons hmarks.2]
  rw [Request.path, Request.address, htarget, hcut, hhead, if_pos (by decide), hpath,
    String.ofList_toList]

theorem query_eq {address : String} (hslash : address.toList.head? = some '/')
    (hmarks : '#' ∉ address.toList ∧ '?' ∉ address.toList) (method : String) {query : List Char}
    (hfragment : '#' ∉ query) :
    ({ method, target := address ++ String.ofList ('?' :: query) } : Request).query =
      Text.Utf8.encode query := by
  have htarget : (address ++ String.ofList ('?' :: query)).toList = address.toList ++ '?' :: query := by
    simp
  have hcut : (Text.cut '#' (address.toList ++ '?' :: query)).1 = address.toList ++ '?' :: query := by
    rw [Text.cut_of_not_mem (by simpa using ⟨hmarks.1, hfragment⟩)]
  have hhead : (address.toList ++ '?' :: query).head? = some '/' := by
    simp [List.head?_append, hslash]
  rw [Request.query, Request.address, htarget, hcut, hhead, if_pos (by decide),
    Text.cut_append_cons hmarks.2, Option.getD_some]

def Route.name (r : Route) : List Char :=
  r.suffix.toList.drop 1

theorem Route.suffix_toList (r : Route) : r.suffix.toList = '/' :: r.name := by
  cases r <;> rfl

theorem Route.name_injective {r r' : Route} (h : r.name = r'.name) : r = r' := by
  cases r <;> cases r' <;> first | rfl | exact absurd h (by decide)

theorem Route.head?_name {r : Route} (h : r ≠ .home) : ∃ c rest, r.name = c :: rest ∧ c ≠ '/' := by
  cases r with
  | home => exact absurd rfl h
  | query => exact ⟨'q', _, rfl, by decide⟩
  | sync | config | run => exact ⟨'s', _, rfl, by decide⟩

def slashed (cs : List Char) : List Char :=
  if cs.getLast? = some '/' then cs else cs ++ ['/']

theorem prefix_slashed (cs : List Char) : cs <+: slashed cs := by
  unfold slashed
  split
  · exact List.prefix_rfl
  · exact List.prefix_append _ _

def Base.address (base : Base) : Route → List Char
  | .home => base.path.toList
  | r => slashed base.path.toList ++ r.name

theorem Base.address_of_ne_home (base : Base) {r : Route} (h : r ≠ .home) :
    base.address r = slashed base.path.toList ++ r.name := by
  cases r with
  | home => exact absurd rfl h
  | _ => rfl

theorem Base.prefix_address (base : Base) (r : Route) : base.path.toList <+: base.address r := by
  by_cases h : r = .home
  · subst h
    exact List.prefix_rfl
  · rw [base.address_of_ne_home h]
    exact (prefix_slashed _).trans (List.prefix_append _ _)

theorem Base.address_home_ne (base : Base) {r : Route} (h : r ≠ .home) :
    base.address .home ≠ base.address r := by
  intro heq
  obtain ⟨c, rest, hname, -⟩ := Route.head?_name h
  have hlength := congrArg List.length (heq.trans (base.address_of_ne_home h))
  have hle := (prefix_slashed base.path.toList).length_le
  rw [List.length_append, hname, List.length_cons, address] at hlength
  omega

theorem Base.address_injective {r r' : Route} (h : base.address r = base.address r') : r = r' := by
  by_cases hr : r = .home <;> by_cases hr' : r' = .home
  · exact hr.trans hr'.symm
  · exact absurd (hr ▸ h) (base.address_home_ne hr')
  · exact absurd (hr' ▸ h).symm (base.address_home_ne hr)
  · rw [base.address_of_ne_home hr, base.address_of_ne_home hr', List.append_cancel_left_eq] at h
    exact Route.name_injective h

theorem literal_eq_slash_iff (cs : List Char) : literal cs = [.char '/'] ↔ cs = ['/'] := by
  have hinjective : Function.Injective literal := List.map_injective_iff.mpr fun _ _ => Part.char.inj
  exact hinjective.eq_iff (b := ['/'])

theorem getLast?_literal (cs : List Char) :
    (literal cs).getLast? = some (.char '/') ↔ cs.getLast? = some '/' := by
  rw [literal, List.getLast?_map, Option.map_eq_some_iff]
  simp

theorem joined_eq_literal (h : PlainPath base.path) (r : Route) :
    joined base.pattern r.suffix = literal (base.address r) := by
  have hsuffix : r.suffix = "/" ↔ r = .home := by cases r <;> decide
  have haddress : base.address r =
      if base.path.toList.getLast? = some '/' then base.path.toList ++ r.name
      else if r = .home then base.path.toList else base.path.toList ++ '/' :: r.name := by
    by_cases hr : r = .home
    · subst hr
      simp [Base.address, Route.name, Route.suffix]
    · rw [base.address_of_ne_home hr, slashed, if_neg hr]
      split <;> simp
  rw [pattern_eq_literal h, joined]
  simp only [literal_eq_slash_iff, getLast?_literal, hsuffix, haddress]
  split
  case isTrue hroot => rw [hroot, Route.suffix_toList]; rfl
  case isFalse =>
    split
    · exact (List.map_append ..).symm
    · split
      · rfl
      · rw [Route.suffix_toList]
        exact (List.map_append ..).symm

theorem route?_eq_some_iff (h : PlainPath base.path) {path : String} {r : Route} :
    base.route? path = some r ↔ base.address r = path.toList := by
  have hmatch (r : Route) : matchesFrom (joined base.pattern r.suffix) path.toList = true ↔
      base.address r = path.toList := by
    rw [joined_eq_literal h, matchesFrom_literal, beq_iff_eq]
  have hfound {r : Route} (hr : base.route? path = some r) : base.address r = path.toList := by
    have hfind := List.find?_some (show Route.all.find? _ = some r from hr)
    exact (hmatch r).mp hfind
  refine ⟨hfound, fun hr => ?_⟩
  have hmem : r ∈ Route.all := by cases r <;> decide
  have hsome : (base.route? path).isSome :=
    List.find?_isSome.mpr ⟨r, hmem, (hmatch r).mpr hr⟩
  obtain ⟨r', hr'⟩ := Option.isSome_iff_exists.mp hsome
  rw [hr', Base.address_injective ((hfound hr').trans hr.symm)]

def EndsDoubled (path : String) : Prop :=
  ['/', '/'] <:+ path.toList

instance (path : String) : Decidable (EndsDoubled path) :=
  inferInstanceAs (Decidable (_ <:+ _))

def written (base : Base) : Route → String
  | .home => pathUnder base.path ""
  | r => pathUnder base.path r.suffix

theorem written_home (base : Base) : (written base .home).toList = base.address .home := rfl

theorem written_of_ne_home (base : Base) {r : Route} (h : r ≠ .home) :
    (written base r).toList = Text.dropEndWhile (· == '/') base.path.toList ++ '/' :: r.name := by
  have hsuffix : r.suffix.isEmpty = false := by cases r <;> rfl
  have hwritten : written base r = pathUnder base.path r.suffix := by
    cases r with
    | home => exact absurd rfl h
    | _ => rfl
  rw [hwritten, pathUnder, hsuffix, ← Route.suffix_toList]
  simp

theorem exists_closing_slashes (cs : List Char) :
    ∃ k, cs = Text.dropEndWhile (· == '/') cs ++ List.replicate k '/' ∧
      (cs.getLast? = some '/' ↔ 1 ≤ k) ∧ (['/', '/'] <:+ cs ↔ 2 ≤ k) := by
  obtain ⟨back, hback, hslashes, hlast⟩ := Text.exists_dropEndWhile (fun c => c == '/') cs
  obtain ⟨k, rfl⟩ : ∃ k, back = List.replicate k '/' :=
    ⟨_, List.eq_replicate_of_mem fun c hc => by simpa using hslashes c hc⟩
  refine ⟨k, hback, ?_⟩
  generalize Text.dropEndWhile (fun c => c == '/') cs = front at hback hlast
  have hfront : front.getLast? ≠ some '/' := fun h => by simpa using hlast '/' h
  subst hback
  rw [← List.reverse_prefix, List.reverse_append, List.reverse_replicate, List.getLast?_append,
    List.getLast?_replicate]
  have hreverse : ¬ ['/'] <+: front.reverse := by
    rintro ⟨rest, hrest⟩
    apply hfront
    rw [← List.head?_reverse, ← hrest]
    rfl
  match k with
  | 0 =>
    have hdoubled : ¬ ['/', '/'] <+: front.reverse := fun h => hreverse (.trans (by simp) h)
    simpa [hfront] using hdoubled
  | 1 => simpa using hreverse
  | k + 2 => simp [List.replicate_succ]

theorem head?_written (base : Base) (r : Route) : (written base r).toList.head? = some '/' := by
  by_cases hr : r = .home
  · rw [hr, written_home]
    exact base.head?_path
  · obtain ⟨k, hpath, -⟩ := exists_closing_slashes base.path.toList
    have hhead := base.head?_path
    rw [written_of_ne_home base hr]
    generalize Text.dropEndWhile (fun c => c == '/') base.path.toList = front at hpath
    cases front with
    | nil => rfl
    | cons c front =>
      rw [hpath] at hhead
      exact hhead

theorem not_mem_written {c : Char} (hpath : c ∉ base.path.toList) (r : Route) (hname : c ∉ '/' :: r.name) :
    c ∉ (written base r).toList := by
  by_cases hr : r = .home
  · rwa [hr, written_home]
  · have hfront := List.rdropWhile_prefix (fun c => c == '/') base.path.toList
    rw [written_of_ne_home base hr, List.mem_append, not_or]
    exact ⟨fun hc => hpath (hfront.subset hc), hname⟩

theorem path_written (h : PlainPath base.path) (r : Route) (method : String) {query : List Char}
    (hfragment : '#' ∉ query) (hquery : query = [] ∨ query.head? = some '?') :
    ({ method, target := written base r ++ String.ofList query } : Request).path =
      written base r := by
  have hpath : '#' ∉ base.path.toList ∧ '?' ∉ base.path.toList := by
    constructor <;> exact fun hc => absurd (h _ hc) (by decide)
  have hname : '#' ∉ '/' :: r.name ∧ '?' ∉ '/' :: r.name := by cases r <;> decide
  exact path_eq (head?_written base r) ⟨not_mem_written hpath.1 r hname.1,
    not_mem_written hpath.2 r hname.2⟩ method hfragment hquery

theorem slashed_eq {cs : List Char} (h : ¬ ['/', '/'] <:+ cs) :
    slashed cs = Text.dropEndWhile (· == '/') cs ++ ['/'] := by
  obtain ⟨k, hcs, hlast, hdoubled⟩ := exists_closing_slashes cs
  rw [hdoubled] at h
  unfold slashed
  obtain rfl | rfl : k = 0 ∨ k = 1 := by omega
  · rw [if_neg (fun hslash => absurd (hlast.mp hslash) (by decide))]
    exact congrArg (· ++ ['/']) (hcs.trans (List.append_nil _))
  · rw [if_pos (hlast.mpr le_rfl)]
    exact hcs

theorem written_eq_address (h : ¬ EndsDoubled base.path) (r : Route) :
    (written base r).toList = base.address r := by
  by_cases hr : r = .home
  · exact hr ▸ written_home base
  · rw [written_of_ne_home base hr, base.address_of_ne_home hr, slashed_eq h, List.append_assoc,
      List.singleton_append]

theorem address_ne_written (h : EndsDoubled base.path) {r : Route} (hr : r ≠ .home) (r' : Route) :
    base.address r' ≠ (written base r).toList := by
  intro heq
  obtain ⟨k, hpath, -, hdoubled⟩ := exists_closing_slashes base.path.toList
  obtain ⟨n, rfl⟩ := Nat.exists_eq_add_of_le (hdoubled.mp h)
  obtain ⟨c, rest, hname, hc⟩ := Route.head?_name hr
  have hprefix := base.prefix_address r'
  rw [heq, written_of_ne_home base hr, hname] at hprefix
  generalize Text.dropEndWhile (fun c => c == '/') base.path.toList = front at hpath hprefix
  rw [hpath, List.prefix_append_right_inj, Nat.add_comm, List.replicate_succ, List.replicate_succ,
    List.cons_prefix_cons, List.cons_prefix_cons] at hprefix
  exact hc hprefix.2.1.symm

end QuotaDesk.Dashboard
