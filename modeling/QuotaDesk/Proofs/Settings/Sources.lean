import QuotaDesk.Settings.File

/-! Settings from a file and the environment. The environment decides about each name that it
gives, so it hides what the file has under that name, and the dashboard and the command line read
the same service out of the same sources. -/

namespace QuotaDesk.Settings

namespace Layer

variable {l l' : Layer}

theorem get?_append (l l' : Layer) (name : String) :
    (l ++ l').get? name = (l'.get? name).or (l.get? name) := by
  rw [get?, List.reverse_append, List.lookup_append]
  rfl

def Alike (l l' : Layer) : Prop :=
  ∀ name, l.get? name = l'.get? name

theorem Alike.service_eq (h : Alike l l') : Service.ofLayer? l = Service.ofLayer? l' := by
  simp only [Service.ofLayer?, text?, optionalText?, nat?, h _]

theorem Alike.server_eq (h : Alike l l') : Server.ofLayer? l = Server.ofLayer? l' := by
  simp only [Server.ofLayer?, text?, optionalText?, nat?, h _]

end Layer

def target (name : String) : String :=
  (entry name .nil).1

theorem entry_fst (name : String) (r : Raw) : (entry name r).1 = target name := by
  unfold target entry
  dsimp only
  split <;> rfl

def entries (members : List (String × Raw)) : Layer :=
  members.map fun m => entry m.1 m.2

theorem lookup_entries {name other : String} (h : target name ≠ other)
    (members : List (String × Raw)) :
    (entries members).lookup other =
      (entries (members.filter fun m => m.1 ≠ name)).lookup other := by
  induction members with
  | nil => rfl
  | cons m members ih =>
    have hkey := entry_fst m.1 m.2
    rcases he : entry m.1 m.2 with ⟨key, r⟩
    obtain rfl : key = target m.1 := by rw [← hkey, he]
    have hcons (rest : List (String × Raw)) :
        entries (m :: rest) = (target m.1, r) :: entries rest :=
      congrArg (· :: entries rest) he
    by_cases hm : m.1 = name
    · have hne : (other == target m.1) = false := beq_eq_false_iff_ne.mpr (hm ▸ h.symm)
      rw [List.filter_cons_of_neg (by simpa using hm), hcons, List.lookup_cons, hne, ih]
    · rw [List.filter_cons_of_pos (by simpa using hm), hcons, hcons, List.lookup_cons,
        List.lookup_cons, ih]

theorem get?_entries {name other : String} (h : target name ≠ other)
    (members : List (String × Raw)) :
    (entries members).get? other = (entries (members.filter fun m => m.1 ≠ name)).get? other := by
  have hreverse := lookup_entries h members.reverse
  rwa [entries, entries, List.filter_reverse, List.map_reverse, List.map_reverse] at hreverse

def File.members? (f : File) : Option (List (String × Raw)) :=
  match f.format with
  | .json =>
    match Json.Value.ofBytes? (Text.Utf8.encode (fileChars f.bytes)) with
    | some (.record members) => some (members.map fun m => (m.1, .ofValue m.2))
    | _ => none
  | .toml =>
    let cs := Toml.withoutMark (fileChars f.bytes)
    (Toml.document (cs.length + 1) {} cs).map fun t => t.members.map fun m => (m.1, m.2.raw)

theorem ofFile?_eq (f : File) : Layer.ofFile? f.format f.bytes = f.members?.map entries := by
  obtain ⟨_ | _, bytes⟩ := f
  · simp only [Layer.ofFile?, Layer.ofJson?, File.members?]
    rcases Json.Value.ofBytes? (Text.Utf8.encode (fileChars bytes)) with _ | v
    · rfl
    · cases v with
      | record members => simp [entries, Function.comp_def]
      | _ => rfl
  · simp only [Layer.ofFile?, Layer.ofToml?, File.members?, Option.map_map]
    refine congrArg (Option.map · _) (funext fun t => ?_)
    simp [Toml.Table.layer, entries, Function.comp_def]

def members? : Option File → Option (List (String × Raw))
  | none => some []
  | some f => f.members?

theorem given?_eq (file : Option File) (env : List (String × String)) :
    Layer.given? file env = (members? file).map fun m => entries m ++ Layer.ofEnvironment env := by
  cases file with
  | none => rfl
  | some f =>
    show (Layer.ofFile? f.format f.bytes).map _ = f.members?.map _
    rw [ofFile?_eq, Option.map_map]
    rfl

/-- The files differ at most in what they have under one name, if anything. -/
def AgreeBut (name : String) (file file' : Option File) : Prop :=
  (members? file).map (·.filter fun m => m.1 ≠ name) =
    (members? file').map (·.filter fun m => m.1 ≠ name)

def Sets (env : List (String × String)) (name : String) : Prop :=
  ∃ v ∈ env, lowerName v.1 = name

theorem Sets.exists_get? {env : List (String × String)} {name : String} (h : Sets env name) :
    ∃ r, (Layer.ofEnvironment env).get? (target name) = some r := by
  obtain ⟨v, hv, rfl⟩ := h
  rw [← Option.isSome_iff_exists, Layer.get?, List.lookup_isSome_iff]
  refine ⟨entry (lowerName v.1) (.text v.2), ?_, ?_⟩
  · exact List.mem_reverse.mpr (List.mem_map.mpr ⟨v, hv, rfl⟩)
  · exact beq_iff_eq.mpr (entry_fst _ _).symm

theorem alike_of_agreeBut {name : String} {members members' : List (String × Raw)}
    {env : List (String × String)} (henv : Sets env name)
    (h : members.filter (fun m => m.1 ≠ name) = members'.filter fun m => m.1 ≠ name) :
    Layer.Alike (entries members ++ Layer.ofEnvironment env)
      (entries members' ++ Layer.ofEnvironment env) := by
  intro other
  rw [Layer.get?_append, Layer.get?_append]
  by_cases hother : target name = other
  · -- The environment decides, whatever stands in the file.
    obtain ⟨r, hr⟩ := henv.exists_get?
    rw [← hother, hr, Option.some_or, Option.some_or]
  · rw [get?_entries hother members, h, ← get?_entries hother members']

theorem service_of_server {l : Layer} {c : Server} (h : Server.ofLayer? l = some c) :
    Service.ofLayer? l = some c.service := by
  simp only [Server.ofLayer?, Option.bind_eq_bind, Option.bind_eq_some_iff] at h
  obtain ⟨url, hurl, token, htoken, secs, hsecs, host, -, port, -, base, -, hc⟩ := h
  cases hc
  simp [Service.ofLayer?, hurl, htoken, hsecs, Server.service]

theorem load?_of_agreeBut {name : String} {file file' : Option File} {env : List (String × String)}
    (henv : Sets env name) (h : AgreeBut name file file') :
    Server.load? file' env = Server.load? file env ∧
      Service.load? file' env = Service.load? file env := by
  simp only [Server.load?, Service.load?, given?_eq]
  rw [AgreeBut] at h
  rcases hm : members? file with _ | members <;> rcases hm' : members? file' with _ | members'
  all_goals rw [hm, hm'] at h
  · exact ⟨rfl, rfl⟩
  · cases h
  · cases h
  · have halike := alike_of_agreeBut henv (Option.some.inj h).symm
    exact ⟨halike.server_eq, halike.service_eq⟩

/-- What can be loaded for the dashboard can be loaded for the command line, which then reaches the
same service; and neither depends on what the file has under a name that the environment gives. -/
theorem settings_shared (file : Option File) (env : List (String × String)) :
    (∀ c, Server.load? file env = some c → ∃ s, Service.load? file env = some s ∧
      s.apiBaseUrl = c.apiBaseUrl ∧ s.accessToken = c.accessToken ∧ s.timeoutSecs = c.timeoutSecs) ∧
      ∀ name file', Sets env name → AgreeBut name file file' →
        Server.load? file' env = Server.load? file env ∧
          Service.load? file' env = Service.load? file env := by
  refine ⟨fun c hc => ?_, fun name file' => load?_of_agreeBut⟩
  obtain ⟨l, hl, hlayer⟩ := Option.bind_eq_some_iff.mp hc
  exact ⟨c.service, Option.bind_eq_some_iff.mpr ⟨l, hl, service_of_server hlayer⟩, rfl, rfl, rfl⟩

theorem settings_shared_hidden :
    let file : File := ⟨.toml, Text.Utf8.encodeText "api_base_url = 'http://a'\nport = 81\n"⟩
    let file' : File := ⟨.json, Text.Utf8.encodeText "\x7b\"port\":81\x7d"⟩
    let env := [("Api_Base_URL", "http://b")]
    Sets env "api_base_url" ∧ AgreeBut "api_base_url" (some file) (some file') ∧
      Server.load? (some file) env = some { apiBaseUrl := "http://b", port := 81 } ∧
      Server.load? (some file') env = some { apiBaseUrl := "http://b", port := 81 } ∧
      ∃ s, Service.load? (some file') env = some s ∧ s.apiBaseUrl = "http://b" := by
  intro file file' env
  have henv : Sets env "api_base_url" := ⟨_, List.mem_cons_self, by decide⟩
  have hagree : AgreeBut "api_base_url" (some file) (some file') := by
    unfold AgreeBut
    decide +kernel
  have hload : Server.load? (some file) env = some { apiBaseUrl := "http://b", port := 81 } := by
    decide +kernel
  have hsame := (settings_shared (some file) env).2 "api_base_url" (some file') henv hagree
  have hload' := hsame.1.trans hload
  obtain ⟨s, hs, hurl, -⟩ := (settings_shared (some file') env).1 _ hload'
  exact ⟨henv, hagree, hload, hload', s, hs, hurl⟩

end QuotaDesk.Settings
