import QuotaDesk.Backup.Locator
import QuotaDesk.Proofs.Text.Blank
import QuotaDesk.Proofs.Text.Split

/-! Repository locators. A locator is the name of a repository between slashes and behind addresses
of the host, and reading it gives the name. A name written as a locator is read back as it is
unless it has a blank at an end that no address and no slash covers. -/

namespace QuotaDesk.Backup

open Text

/-- An owner and a repository without slashes of their own. -/
def IsSlug (slug : List Char) : Prop :=
  ∃ owner repo, slug = owner ++ '/' :: repo ∧ owner ≠ [] ∧ repo ≠ [] ∧ '/' ∉ owner ∧ '/' ∉ repo

def written (secure plain front : Nat) (name : List Char) (back : Nat) : List Char :=
  copies secure secureHost ++ copies plain plainHost ++ List.replicate front '/' ++ name ++
    List.replicate back '/'

/-- Without the blanks around it, the locator is the name written in some way. -/
def Locates (locator slug : String) : Prop :=
  IsSlug slug.toList ∧ ∃ secure plain front back,
    IsCore isBlank locator.toList (written secure plain front slug.toList back)

def withoutHosts (cs : List Char) : List Char :=
  dropCopies plainHost (dropCopies secureHost cs)

variable {owner repo : List Char}

theorem no_host_in_front (scheme : List Char) (hne : scheme ≠ []) (hscheme : '/' ∉ scheme)
    (howner : '/' ∉ owner) (hrepo : '/' ∉ repo) (front back : Nat) :
    ¬(scheme ++ '/' :: '/' :: "github.com/".toList) <+:
      List.replicate front '/' ++ (owner ++ '/' :: repo) ++ List.replicate back '/' := by
  rintro ⟨rest, h⟩
  cases front with
  | zero =>
    -- Behind its first slash the address has a second one, and the name has the repository.
    have hcut := congrArg (cut '/') h
    simp only [List.replicate_zero, List.nil_append, List.append_assoc, List.cons_append] at hcut
    rw [cut_append_cons hscheme, cut_append_cons howner, Prod.mk.injEq, Option.some.injEq] at hcut
    cases repo with
    | nil =>
      have hg : 'g' ∈ List.replicate back '/' := by
        rw [← List.nil_append (List.replicate back '/'), ← hcut.2]
        exact List.mem_cons_of_mem _ List.mem_cons_self
      exact absurd (List.eq_of_mem_replicate hg) (by decide)
    | cons c repo =>
      obtain ⟨rfl, -⟩ := List.cons.inj hcut.2
      exact hrepo List.mem_cons_self
  | succ front =>
    obtain ⟨c, scheme, rfl⟩ := List.exists_cons_of_ne_nil hne
    obtain ⟨rfl, -⟩ := List.cons.inj h
    exact hscheme List.mem_cons_self

theorem no_secureHost_in_front (howner : '/' ∉ owner) (hrepo : '/' ∉ repo)
    (plain front back : Nat) :
    ¬secureHost <+: copies plain plainHost ++
      (List.replicate front '/' ++ (owner ++ '/' :: repo) ++ List.replicate back '/') := by
  cases plain with
  | zero => exact no_host_in_front "https:".toList (by decide) (by decide) howner hrepo _ _
  | succ plain =>
    -- The two addresses differ before the shorter one ends.
    intro h
    rw [copies_succ, List.append_assoc] at h
    exact absurd (List.prefix_of_prefix_length_le (List.prefix_append _ _) h (by decide))
      (by decide : ¬plainHost <+: secureHost)

theorem withoutHosts_written (howner : '/' ∉ owner) (hrepo : '/' ∉ repo)
    (secure plain front back : Nat) :
    withoutHosts (written secure plain front (owner ++ '/' :: repo) back) =
      List.replicate front '/' ++ (owner ++ '/' :: repo) ++ List.replicate back '/' := by
  have hsecure := no_secureHost_in_front howner hrepo plain front back
  have hplain : ¬plainHost <+: _ :=
    no_host_in_front "http:".toList (by decide) (by decide) howner hrepo front back
  simp only [withoutHosts, written, List.append_assoc] at hsecure hplain ⊢
  rw [dropCopies_copies hsecure, dropCopies_copies hplain]

theorem locatorPath_eq {locator : String} {core : List Char}
    (h : IsCore isBlank locator.toList core) :
    locatorPath locator = dropBothWhile (· == '/') (withoutHosts core) := by
  rw [← dropBothWhile_eq_iff.mpr h]
  rfl

theorem repoSlug?_eq_some_iff {locator slug : String} :
    repoSlug? locator = some slug ↔ IsSlug slug.toList ∧ locatorPath locator = slug.toList := by
  constructor
  · intro h
    unfold repoSlug? at h
    split at h
    · next owner repo hsplit =>
      obtain ⟨hpath, howner, hrepo⟩ := splitOn_eq_pair_iff.mp hsplit
      obtain ⟨hne, heq⟩ := Option.ite_none_left_eq_some.mp h
      obtain rfl := Option.some.inj heq
      simp only [Bool.or_eq_true, List.isEmpty_iff, not_or] at hne
      rw [String.toList_ofList]
      exact ⟨⟨owner, repo, rfl, hne.1, hne.2, howner, hrepo⟩, hpath⟩
    · cases h
  · rintro ⟨⟨owner, repo, hslug, howner, hrepo, howner', hrepo'⟩, hpath⟩
    have hsplit := splitOn_eq_pair_iff.mpr ⟨hpath.trans hslug, howner', hrepo'⟩
    simp [repoSlug?, hsplit, howner, hrepo, ← hslug]

theorem IsSlug.dropBothWhile_eq {slug : List Char} (h : IsSlug slug) :
    dropBothWhile (· == '/') slug = slug := by
  obtain ⟨owner, repo, rfl, howner, hrepo, howner', hrepo'⟩ := h
  rw [dropBothWhile_eq_self_iff]
  constructor
  · intro c hc
    rw [List.head?_append_of_ne_nil _ howner] at hc
    exact beq_eq_false_iff_ne.mpr fun h => howner' (h ▸ List.mem_of_mem_head? hc)
  · intro c hc
    rw [List.getLast?_append_cons, List.getLast?_cons_of_ne_nil hrepo] at hc
    exact beq_eq_false_iff_ne.mpr fun h => hrepo' (h ▸ List.mem_of_mem_getLast? hc)

theorem eq_replicate_of_slashes {cs : List Char} (h : ∀ c ∈ cs, (c == '/') = true) :
    cs = List.replicate cs.length '/' :=
  List.eq_replicate_iff.mpr ⟨rfl, fun c hc => beq_iff_eq.mp (h c hc)⟩

theorem dropBothWhile_slashes (front back : Nat) (cs : List Char) :
    dropBothWhile (· == '/') (List.replicate front '/' ++ cs ++ List.replicate back '/') =
      dropBothWhile (· == '/') cs := by
  have hslash (n : Nat) : ∀ c ∈ List.replicate n '/', (c == '/') = true :=
    fun c hc => beq_iff_eq.mpr (List.eq_of_mem_replicate hc)
  exact dropBothWhile_append (hslash front) (hslash back) cs

theorem exists_written (core : List Char) : ∃ secure plain front back,
    core = written secure plain front (dropBothWhile (· == '/') (withoutHosts core)) back := by
  obtain ⟨secure, hsecure⟩ := exists_dropCopies secureHost core
  obtain ⟨plain, hplain⟩ := exists_dropCopies plainHost (dropCopies secureHost core)
  obtain ⟨front, back, haround, hfront, hback⟩ :=
    exists_dropBothWhile (· == '/') (withoutHosts core)
  refine ⟨secure, plain, front.length, back.length, ?_⟩
  rw [written, ← eq_replicate_of_slashes hfront, ← eq_replicate_of_slashes hback]
  simp only [List.append_assoc] at haround ⊢
  rw [← haround, withoutHosts, ← hplain, ← hsecure]

theorem repoSlug?_eq_some_iff_locates {locator slug : String} :
    repoSlug? locator = some slug ↔ Locates locator slug := by
  rw [repoSlug?_eq_some_iff, Locates]
  refine and_congr_right fun hslug => ⟨fun hpath => ?_, ?_⟩
  · have hcore : IsCore isBlank locator.toList (dropBothWhile isBlank locator.toList) :=
      dropBothWhile_eq_iff.mp rfl
    obtain ⟨secure, plain, front, back, hwritten⟩ :=
      exists_written (dropBothWhile isBlank locator.toList)
    rw [← locatorPath_eq hcore, hpath] at hwritten
    exact ⟨secure, plain, front, back, hwritten ▸ hcore⟩
  · rintro ⟨secure, plain, front, back, hcore⟩
    obtain ⟨owner, repo, heq, -, -, howner, hrepo⟩ := id hslug
    rw [locatorPath_eq hcore, heq, withoutHosts_written howner hrepo, dropBothWhile_slashes, ← heq,
      hslug.dropBothWhile_eq]

/-- A text is read as a name exactly when it is a locator of it, and it is a locator of one name
at most; any other text is read as none. -/
theorem locator_grammar (locator : String) :
    (∀ slug, repoSlug? locator = some slug ↔ Locates locator slug) ∧
      (∀ slug slug', Locates locator slug → Locates locator slug' → slug = slug') ∧
      (repoSlug? locator = none ↔ ¬∃ slug, Locates locator slug) := by
  have hread (slug : String) : repoSlug? locator = some slug ↔ Locates locator slug :=
    repoSlug?_eq_some_iff_locates
  refine ⟨hread, fun slug slug' h h' => ?_, ?_⟩
  · exact Option.some.inj (((hread slug).mpr h).symm.trans ((hread slug').mpr h'))
  · rw [Option.eq_none_iff_forall_ne_some, not_exists]
    exact forall_congr' fun slug => not_congr (hread slug)

theorem locator_grammar_padded :
    let locator := " http://github.com//acme/backup/ "
    Locates locator "acme/backup" ∧ repoSlug? locator = some "acme/backup" ∧
      ∀ slug, Locates locator slug → slug = "acme/backup" := by
  intro locator
  have hslug : IsSlug "acme/backup".toList := ⟨"acme".toList, "backup".toList, by decide⟩
  have hcore : IsCore isBlank locator.toList (written 0 1 1 "acme/backup".toList 1) :=
    dropBothWhile_eq_iff.mp (by decide +kernel)
  have h : Locates locator "acme/backup" := ⟨hslug, 0, 1, 1, 1, hcore⟩
  obtain ⟨hread, hunique, -⟩ := locator_grammar locator
  exact ⟨h, (hread _).mpr h, fun slug hslug => hunique _ _ hslug h⟩

theorem not_blank_of_mem_hosts {secure plain front : Nat} {c : Char}
    (h : c ∈ copies secure secureHost ++ copies plain plainHost ++ List.replicate front '/') :
    isBlank c = false := by
  have hhosts : (secureHost ++ plainHost ++ ['/']).any isBlank = false := by decide
  refine Bool.eq_false_iff.mpr (List.any_eq_false.mp hhosts c ?_)
  simp only [copies, List.mem_append, List.mem_flatten, List.mem_replicate] at h ⊢
  obtain (⟨_, ⟨-, rfl⟩, h⟩ | ⟨_, ⟨-, rfl⟩, h⟩) | ⟨-, rfl⟩ := h
  · exact .inl (.inl h)
  · exact .inl (.inr h)
  · exact .inr List.mem_cons_self

theorem exists_dropBothWhile_written (owner repo : List Char) (secure plain front back : Nat) :
    ∃ owner' repo', owner' <:+ owner ∧ repo' <+: repo ∧
      dropBothWhile isBlank (written secure plain front (owner ++ '/' :: repo) back) =
        written secure plain front (owner' ++ '/' :: repo') back := by
  obtain ⟨owner', howner, hsuffix⟩ := exists_dropWhile_append
    (fun c (hc : c ∈ copies secure secureHost ++ copies plain plainHost ++
      List.replicate front '/') => not_blank_of_mem_hosts hc) owner
  obtain ⟨repo', hrepo, hfront⟩ := exists_dropEndWhile_append
    (fun c (hc : c ∈ List.replicate back '/') =>
      (List.eq_of_mem_replicate hc ▸ by decide : isBlank c = false)) repo
  refine ⟨owner', repo', hsuffix, hfront, ?_⟩
  have hslash : isBlank '/' = false := by decide
  have h := dropBothWhile_append_cons hslash (copies secure secureHost ++ copies plain plainHost ++
    List.replicate front '/' ++ owner) (repo ++ List.replicate back '/')
  rw [howner, hrepo] at h
  simpa only [written, List.append_assoc, List.cons_append] using h

theorem repoSlug?_written_iff {slug : String} (hslug : IsSlug slug.toList)
    (secure plain front back : Nat) :
    repoSlug? (String.ofList (written secure plain front slug.toList back)) = some slug ↔
      dropBothWhile isBlank (written secure plain front slug.toList back) =
        written secure plain front slug.toList back := by
  constructor
  · intro h
    obtain ⟨owner, repo, heq, -, -, howner, hrepo⟩ := id hslug
    obtain ⟨owner', repo', hsuffix, hfront, htrim⟩ :=
      exists_dropBothWhile_written owner repo secure plain front back
    rw [← heq] at htrim
    have hpath := (repoSlug?_eq_some_iff.mp h).2
    rw [locatorPath_eq (dropBothWhile_eq_iff.mp (by rw [String.toList_ofList, htrim])),
      withoutHosts_written (fun hc => howner (hsuffix.subset hc))
        (fun hc => hrepo (hfront.subset hc)), dropBothWhile_slashes] at hpath
    -- What is read is no longer than what is left of the two parts.
    have hlength := length_dropBothWhile_le (· == '/') (owner' ++ '/' :: repo')
    rw [hpath, heq, List.length_append, List.length_append, List.length_cons,
      List.length_cons] at hlength
    have howner' := hsuffix.length_le
    have hrepo' := hfront.length_le
    rw [htrim, hsuffix.eq_of_length (by omega), hfront.eq_of_length (by omega), ← heq]
  · intro h
    refine repoSlug?_eq_some_iff_locates.mpr ⟨hslug, secure, plain, front, back, ?_⟩
    rw [String.toList_ofList]
    exact dropBothWhile_eq_iff.mp h

def beginsBlank (s : String) : Bool :=
  s.toList.head?.any isBlank

def endsBlank (s : String) : Bool :=
  s.toList.getLast?.any isBlank

def slashes (n : Nat) : String :=
  String.ofList (List.replicate n '/')

theorem ofList_written (secure plain front back : Nat) (slug : String) :
    String.ofList (written secure plain front slug.toList back) =
      String.ofList (copies secure secureHost) ++ String.ofList (copies plain plainHost) ++
        slashes front ++ slug ++ slashes back := by
  simp only [written, slashes, String.ofList_append, String.ofList_toList]

theorem repoSlug?_covered_iff {slug : String} (hslug : IsSlug slug.toList)
    (secure plain front back : Nat) :
    repoSlug? (String.ofList (written secure plain front slug.toList back)) = some slug ↔
      (secure + plain + front = 0 → ¬beginsBlank slug) ∧ (back = 0 → ¬endsBlank slug) := by
  have hne : slug.toList ≠ [] := by
    obtain ⟨owner, repo, heq, -⟩ := id hslug
    simp [heq]
  have hfront : copies secure secureHost ++ copies plain plainHost ++
      List.replicate front '/' = [] ↔ secure + plain + front = 0 := by
    rw [List.append_eq_nil_iff, List.append_eq_nil_iff, copies_eq_nil_iff (by decide),
      copies_eq_nil_iff (by decide), List.replicate_eq_nil_iff]
    omega
  have hback : ∀ c ∈ List.replicate back '/', isBlank c = false := fun c hc =>
    List.eq_of_mem_replicate hc ▸ by decide
  rw [repoSlug?_written_iff hslug, written,
    dropBothWhile_append_eq_self_iff hne (fun c => not_blank_of_mem_hosts) hback, hfront,
    List.replicate_eq_nil_iff]
  simp only [beginsBlank, endsBlank, Bool.not_eq_true, Option.any_eq_false, Option.mem_def]

/-- What a locator is read as is read as itself, with an address in front of it, or between
slashes, exactly when it has no blank at an end that stays bare. -/
theorem normal_form_kept_iff {locator slug : String} (h : repoSlug? locator = some slug) :
    (repoSlug? slug = some slug ↔ ¬beginsBlank slug ∧ ¬endsBlank slug) ∧
      (repoSlug? ("https://github.com/" ++ slug) = some slug ↔ ¬endsBlank slug) ∧
      (repoSlug? ("http://github.com/" ++ slug) = some slug ↔ ¬endsBlank slug) ∧
      ∀ front back, repoSlug? (slashes front ++ slug ++ slashes back) = some slug ↔
        (front = 0 → ¬beginsBlank slug) ∧ (back = 0 → ¬endsBlank slug) := by
  have hkept := repoSlug?_covered_iff (repoSlug?_eq_some_iff.mp h).1
  have hbare := hkept 0 0 0 0
  have hsecure := hkept 1 0 0 0
  have hplain := hkept 0 1 0 0
  have hbetween := hkept 0 0
  have hzero (host : List Char) : String.ofList (copies 0 host) = "" := rfl
  have hone (host : List Char) : copies 1 host = host := List.append_nil host
  have hsecureHost : String.ofList secureHost = "https://github.com/" := String.ofList_toList
  have hplainHost : String.ofList plainHost = "http://github.com/" := String.ofList_toList
  simp only [ofList_written, hzero, hone, hsecureHost, hplainHost, show slashes 0 = "" from rfl,
    String.empty_append, String.append_empty] at hbare hsecure hplain hbetween
  refine ⟨?_, ?_, ?_, fun front back => ?_⟩
  · simpa using hbare
  · simpa using hsecure
  · simpa using hplain
  · simpa using hbetween front back

theorem normal_form_kept_iff_covered :
    let locator := "https://github.com/ acme/backup"
    let slug := " acme/backup"
    repoSlug? locator = some slug ∧ repoSlug? ("http://github.com/" ++ slug) = some slug ∧
      repoSlug? (slashes 2 ++ slug ++ slashes 0) = some slug := by
  intro locator slug
  have h : repoSlug? locator = some slug := by decide +kernel
  have hend : ¬endsBlank slug := by decide
  obtain ⟨-, -, hplain, hbetween⟩ := normal_form_kept_iff h
  exact ⟨h, hplain.mpr hend, (hbetween 2 0).mpr ⟨nofun, fun _ => hend⟩⟩

/-- Read once more, a name loses the blank that its address had covered, and one whose owner is
nothing else is no name any more. -/
theorem normal_form_lost :
    repoSlug? "https://github.com/ acme/backup" = some " acme/backup" ∧
      repoSlug? " acme/backup" = some "acme/backup" ∧
      repoSlug? "/ /backup" = some " /backup" ∧ repoSlug? " /backup" = none := by
  decide +kernel

end QuotaDesk.Backup
