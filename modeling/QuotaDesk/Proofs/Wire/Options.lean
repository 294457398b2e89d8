import QuotaDesk.Client.Basic
import QuotaDesk.Proofs.Backup.Options
import QuotaDesk.Proofs.Json.Value
import QuotaDesk.Proofs.Wire.StatusCode

/-! Options in an answer. They are sent as a record of values or as a list of entries, and both
forms of the same pairs of a name and a value give the same table, in which the last value of a
name counts. -/

namespace QuotaDesk.Wire

open Json (Tree Quoted Value)
open Backup (Options)

/-- A list entry for a member: a record of its name and its value in either order, or of its name
alone when the value is null. -/
inductive EntryOf : Quoted × Tree → Tree → Prop
  | keyValue {key value name : Quoted} {t : Tree} (hkey : key.text? = some "key")
    (hvalue : value.text? = some "value") :
    EntryOf (name, t) (.record [(key, .text name), (value, t)])
  | valueKey {key value name : Quoted} {t : Tree} (hkey : key.text? = some "key")
    (hvalue : value.text? = some "value") :
    EntryOf (name, t) (.record [(value, t), (key, .text name)])
  | bare {key name : Quoted} (hkey : key.text? = some "key") :
    EntryOf (name, .null) (.record [(key, .text name)])

def memberText? (m : Quoted × Tree) : Option (String × String) :=
  m.1.text?.bind fun name => (Value.ofTree? m.2).map fun v => (name, optionText v)

namespace EntryOf

variable {m : Quoted × Tree} {e : Tree}

theorem read_of_fields {name : Quoted} (value : Option Tree)
    (h : fields? entryFields 1 e = some [some (.text name), value]) :
    optionEntry? e = memberText? (name, value.getD .null) := by
  unfold optionEntry?
  rw [h]
  simp only [memberText?, text?]
  rcases name.text? with _ | s
  · rfl
  · cases value with
    | none => rfl
    | some t =>
      simp only [Option.bind_eq_bind, Option.bind_some, Option.getD_some]
      rcases Value.ofTree? t with _ | v <;> rfl

theorem read_eq (h : EntryOf m e) : optionEntry? e = memberText? m := by
  cases h with
  | keyValue hkey hvalue =>
    refine read_of_fields (some _) ?_
    simp [fields?, namedMembers?, hkey, hvalue, entryFields, member?]
  | valueKey hkey hvalue =>
    refine read_of_fields (some _) ?_
    simp [fields?, namedMembers?, hkey, hvalue, entryFields, member?]
  | bare hkey =>
    refine read_of_fields none ?_
    simp [fields?, namedMembers?, hkey, entryFields, member?]

theorem isLegible_eq (h : EntryOf m e) : e.isLegible = (m.1.text?.isSome && m.2.isLegible) := by
  cases h with
  | keyValue hkey hvalue => simp [Tree.isLegible, Tree.areLegibleMembers, hkey, hvalue]
  | valueKey hkey hvalue =>
    simp [Tree.isLegible, Tree.areLegibleMembers, hkey, hvalue, Bool.and_comm]
  | bare hkey => simp [Tree.isLegible, Tree.areLegibleMembers, hkey]

theorem nesting_le (h : EntryOf m e) : e.nesting ≤ m.2.nesting + 1 := by
  cases h <;> simp [Tree.nesting, Tree.nestingMembers, Nat.add_comm]

end EntryOf

variable {members : List (Quoted × Tree)} {entries : List Tree}

theorem mapM_read_eq (h : List.Forall₂ EntryOf members entries) :
    entries.mapM optionEntry? = members.mapM memberText? := by
  induction h with
  | nil => rfl
  | cons hfirst _ ih => rw [List.mapM_cons, List.mapM_cons, hfirst.read_eq, ih]

theorem areLegible_eq (h : List.Forall₂ EntryOf members entries) :
    Tree.areLegibleItems entries = Tree.areLegibleMembers members := by
  induction h with
  | nil => rfl
  | cons hfirst _ ih =>
    rw [Tree.areLegibleItems, Tree.areLegibleMembers, hfirst.isLegible_eq, ih]

theorem nestingItems_le_add_one (h : List.Forall₂ EntryOf members entries) {n : Nat}
    (hmembers : ∀ m ∈ members, m.2.nesting ≤ n) : Tree.nestingItems entries ≤ n + 1 := by
  refine Tree.nestingItems_le ?_
  induction h with
  | nil => exact nofun
  | cons hfirst _ ih =>
    rw [List.forall_mem_cons] at hmembers ⊢
    exact ⟨Nat.le_trans hfirst.nesting_le (Nat.succ_le_succ hmembers.1), ih hmembers.2⟩

theorem namedMembers?_bind_mapM {β : Type} (f : String × Tree → Option β)
    (members : List (Quoted × Tree)) :
    ((namedMembers? members).bind fun named => named.mapM f) =
      members.mapM fun m => m.1.text?.bind fun name => f (name, m.2) := by
  induction members with
  | nil => rfl
  | cons m rest ih =>
    obtain ⟨name, t⟩ := m
    rw [List.mapM_cons, ← ih]
    rcases hname : name.text? with _ | s
    · rw [namedMembers?, hname]
      rfl
    · rw [namedMembers?_cons hname]
      simp only [Option.bind_eq_bind, Option.bind_some]
      rcases namedMembers? rest with _ | named
      · rcases f (s, t) with _ | b <;> rfl
      · rw [Option.map_some, Option.bind_some, List.mapM_cons]
        rfl

theorem options?_record (hdepth : (Tree.record members).nesting ≤ valueNesting) :
    options? (.record members) =
      if Tree.areLegibleMembers members then (members.mapM memberText?).map Options.ofList
      else none := by
  rw [options?, decide_eq_false (Nat.not_lt.mpr hdepth), Bool.false_or, Tree.isLegible]
  by_cases h : Tree.areLegibleMembers members = true
  · rw [h, if_pos rfl, if_neg (by decide)]
    exact Option.map_bind.symm.trans
      (congrArg (Option.map Options.ofList) (namedMembers?_bind_mapM _ members))
  · rw [if_neg h, if_pos (by simpa using h)]

theorem options?_list (hdepth : (Tree.list entries).nesting ≤ valueNesting) :
    options? (.list entries) =
      if Tree.areLegibleItems entries then (entries.mapM optionEntry?).map Options.ofList
      else none := by
  rw [options?, decide_eq_false (Nat.not_lt.mpr hdepth), Bool.false_or, Tree.isLegible]
  by_cases h : Tree.areLegibleItems entries = true
  · rw [h, if_pos rfl, if_neg (by decide)]
  · rw [if_neg h, if_pos (by simpa using h)]

theorem nesting_le_of_depth (h : List.Forall₂ EntryOf members entries)
    (hdepth : ∀ m ∈ members, m.2.nesting + 2 ≤ valueNesting) :
    (Tree.record members).nesting ≤ valueNesting ∧ (Tree.list entries).nesting ≤ valueNesting := by
  have hmembers : ∀ m ∈ members, m.2.nesting ≤ 124 :=
    fun m hm => Nat.le_of_add_le_add_right (hdepth m hm)
  have hrecord := Tree.nestingMembers_le hmembers
  have hlist := nestingItems_le_add_one h hmembers
  simp only [Tree.nesting, valueNesting]
  omega

theorem options?_entries (h : List.Forall₂ EntryOf members entries)
    (hdepth : ∀ m ∈ members, m.2.nesting + 2 ≤ valueNesting) :
    options? (.list entries) = options? (.record members) := by
  obtain ⟨hrecord, hlist⟩ := nesting_le_of_depth h hdepth
  rw [options?_list hlist, options?_record hrecord, areLegible_eq h, mapM_read_eq h]

def StandsFor (m : Quoted × Tree) (p : String × Value) : Prop :=
  m.1.text? = some p.1 ∧ Value.ofTree? m.2 = some p.2

variable {pairs : List (String × Value)}

theorem memberText?_of_standsFor (h : List.Forall₂ StandsFor members pairs) :
    members.mapM memberText? = some (pairs.map fun p => (p.1, optionText p.2)) := by
  induction h with
  | nil => rfl
  | cons hfirst _ ih =>
    rw [List.mapM_cons, ih, memberText?, hfirst.1, hfirst.2]
    rfl

theorem areLegible_of_standsFor (h : List.Forall₂ StandsFor members pairs) :
    Tree.areLegibleMembers members = true := by
  induction h with
  | nil => rfl
  | cons hfirst _ ih =>
    rw [Tree.areLegibleMembers, hfirst.1, Value.isLegible_of_ofTreeWith _ hfirst.2, ih]
    rfl

theorem exists_standsFor (h : ∀ m ∈ members, m.1.text?.isSome ∧ m.2.isLegible = true ∧
    Value.isUnmarked m.2 = true) : ∃ pairs, List.Forall₂ StandsFor members pairs := by
  induction members with
  | nil => exact ⟨[], .nil⟩
  | cons m rest ih =>
    obtain ⟨⟨hname, hlegible, hunmarked⟩, hrest⟩ := List.forall_mem_cons.mp h
    obtain ⟨s, hs⟩ := Option.isSome_iff_exists.mp hname
    obtain ⟨v, hv⟩ := Value.exists_ofTreeWith _ hunmarked hlegible
    obtain ⟨pairs, hpairs⟩ := ih hrest
    exact ⟨(s, v) :: pairs, .cons ⟨hs, hv⟩ hpairs⟩

theorem lookup_map_text (pairs : List (String × Value)) (name : String) :
    (pairs.map fun p => (p.1, optionText p.2)).lookup name =
      (pairs.lookup name).map optionText := by
  induction pairs with
  | nil => rfl
  | cons p rest ih =>
    rw [List.map_cons, List.lookup_cons, List.lookup_cons, ih]
    rcases name == p.1 with _ | _ <;> rfl

theorem options?_pairs (h : List.Forall₂ StandsFor members pairs)
    (hdepth : (Tree.record members).nesting ≤ valueNesting) :
    ∃ o, options? (.record members) = some o ∧ (o.map Prod.fst).Nodup ∧
      ∀ name, o.get? name = (pairs.reverse.lookup name).map optionText := by
  refine ⟨_, ?_, Options.nodup_ofList (pairs.map fun p => (p.1, optionText p.2)), fun name => ?_⟩
  · rw [options?_record hdepth, if_pos (areLegible_of_standsFor h), memberText?_of_standsFor h,
      Option.map_some]
  · rw [Options.get?_ofList, ← List.map_reverse, lookup_map_text]

/-- Options sent as a record and as a list of entries of the same names and values are the same
answer, whatever stands around them, and an entry without a value is one of null. Where the
rest of the answer is read they are a table in which each name has the text of its last value. -/
theorem options_alike (w : Wrapping) (hw : w.Named)
    (hentries : List.Forall₂ EntryOf members entries)
    (hdepth : ∀ m ∈ members, m.2.nesting + 2 ≤ valueNesting) {body body' : List UInt8}
    (hbody : Writes body (w.around (.record members)))
    (hbody' : Writes body' (w.around (.list entries))) (http : Nat) :
    Client.decode ⟨http, body⟩ .options = Client.decode ⟨http, body'⟩ .options ∧
    (∀ {pairs : List (String × Value)}, List.Forall₂ StandsFor members pairs →
      ∀ {body₀ : List UInt8} {success : Bool} {message : Option String},
        Writes body₀ (w.around .null) →
        Client.decode ⟨http, body₀⟩ .options = .ok ⟨success, message, none⟩ →
        ∃ o, Client.decode ⟨http, body⟩ .options = .ok ⟨success, message, some o⟩ ∧
          (o.map Prod.fst).Nodup ∧
          ∀ name, o.get? name = (pairs.reverse.lookup name).map optionText) ∧
    ((∀ m ∈ members, m.1.text?.isSome ∧ m.2.isLegible = true ∧ Value.isUnmarked m.2 = true) →
      ∃ pairs, List.Forall₂ StandsFor members pairs) := by
  obtain ⟨head, hhead⟩ := exists_head options? w hw
  have hdata {t : Tree} (hne : t ≠ .null) : envelope? options? (w.around t) =
      head.bind fun h => ((options? t).map some).map fun d => ⟨h.1, h.2, d⟩ := by
    rw [hhead, nullable?_of_ne_null hne]
  have hrecord := hdata (t := .record members) nofun
  refine ⟨?_, fun {pairs} hpairs {body₀ success message} hbody₀ hnull => ?_, exists_standsFor⟩
  · have hlist := hdata (t := .list entries) nofun
    rw [options?_entries hentries hdepth, ← hrecord] at hlist
    simp only [Client.decode]
    rw [answer_of_writes hbody, answer_of_writes hbody', hlist]
  · obtain ⟨o, ho, hnodup, hget⟩ :=
      options?_pairs hpairs (nesting_le_of_depth hentries hdepth).1
    refine ⟨o, ?_, hnodup, hget⟩
    have hempty := (answer_eq_ok_iff hbody₀).mp hnull
    rw [hhead] at hempty
    obtain ⟨⟨success', message'⟩, rfl, hempty⟩ := Option.bind_eq_some_iff.mp hempty
    cases hempty
    refine (answer_eq_ok_iff hbody).mpr ?_
    rw [hrecord, ho]
    rfl

theorem options_alike_repeated :
    Client.decode ⟨200, bytes (.record [("success", .bool true), ("data", .record [
        ("a", .integer 1), ("b", .list [.integer 1, .bool true]), ("a", .null)])])⟩ .options =
      Client.decode ⟨200, bytes (.record [("success", .bool true), ("data", .list [
        .record [("key", .text "a"), ("value", .integer 1)],
        .record [("value", .list [.integer 1, .bool true]), ("key", .text "b")],
        .record [("key", .text "a")]])])⟩ .options ∧
    ∃ o, Client.decode ⟨200, bytes (.record [("success", .bool true), ("data", .record [
        ("a", .integer 1), ("b", .list [.integer 1, .bool true]), ("a", .null)])])⟩ .options =
        .ok ⟨true, none, some o⟩ ∧
      (o.map Prod.fst).Nodup ∧ o.get? "a" = some "" ∧ o.get? "b" = some "[1,true]" ∧
        o.get? "c" = none := by
  have hbody : Writes (bytes (.record [("success", .bool true), ("data", .record [
      ("a", .integer 1), ("b", .list [.integer 1, .bool true]), ("a", .null)])])) _ :=
    writes_bytes rfl
  have hbody' : Writes (bytes (.record [("success", .bool true), ("data", .list [
      .record [("key", .text "a"), ("value", .integer 1)],
      .record [("value", .list [.integer 1, .bool true]), ("key", .text "b")],
      .record [("key", .text "a")]])])) _ :=
    writes_bytes rfl
  have hbody₀ : Writes (bytes (.record [("success", .bool true), ("data", .null)])) _ :=
    writes_bytes rfl
  have hnull : answer options? 200 _ = .ok ⟨true, none, none⟩ := (answer_eq_ok_iff hbody₀).mpr rfl
  have hname (s : String) := Quoted.text?_ofText s
  have hentries : List.Forall₂ EntryOf
      [(.ofText "a", (Value.integer 1).tree),
        (.ofText "b", (Value.list [.integer 1, .bool true]).tree), (.ofText "a", .null)]
      [(Value.record [("key", .text "a"), ("value", .integer 1)]).tree,
        (Value.record [("value", .list [.integer 1, .bool true]), ("key", .text "b")]).tree,
        (Value.record [("key", .text "a")]).tree] :=
    .cons (.keyValue (hname "key") (hname "value")) <|
      .cons (.valueKey (hname "key") (hname "value")) <| .cons (.bare (hname "key")) .nil
  obtain ⟨hsame, htable, -⟩ :=
    options_alike (.record [(.ofText "success", .bool true)] (.ofText "data") []) (hname "data")
      hentries (by decide) hbody hbody' 200
  obtain ⟨o, ho, hnodup, hget⟩ :=
    @htable [("a", .integer 1), ("b", .list [.integer 1, .bool true]), ("a", .null)]
      (.cons ⟨hname "a", rfl⟩ (.cons ⟨hname "b", rfl⟩ (.cons ⟨hname "a", rfl⟩ .nil)))
      _ _ _ hbody₀ hnull
  exact ⟨hsame, o, ho, hnodup, (hget "a").trans rfl, (hget "b").trans (by decide),
    (hget "c").trans rfl⟩

end QuotaDesk.Wire
