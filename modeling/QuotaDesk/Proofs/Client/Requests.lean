import QuotaDesk.Client.Basic
import QuotaDesk.Proofs.Json.Print
import QuotaDesk.Proofs.Text.Percent
import QuotaDesk.Proofs.Text.Split

/-! What a request carries. The query of a lookup and the body of an update are read back to the
arguments of the call, so that a key, a name or a value never stands for anything but itself. -/

namespace QuotaDesk.Client

open Text
open Json (Tree Value Quoted)

/-- A name or a value of a query; readers differ on whether a plus sign is a space. -/
def readPart (plusIsSpace : Bool) (part : List Char) : Option String :=
  let bytes := Utf8.encode part
  let spaced := if plusIsSpace then bytes.map fun b => if b = 0x2B then 0x20 else b else bytes
  Utf8.decodeText? (Percent.decode spaced)

def readQuery (plusIsSpace : Bool) (query : List Char) : List (List (Option String)) :=
  (splitOn '&' query).map fun parameter => (splitOn '=' parameter).map (readPart plusIsSpace)

def readRecord (body : List UInt8) : Option (List (String × Option String)) :=
  match Tree.parse? body with
  | some (.record members) =>
    (Wire.namedMembers? members).map fun named => named.map fun m => (m.1, Wire.text? m.2)
  | _ => none

theorem readPart_of_ascii {part : List Char} (h : ∀ c ∈ part, c.toNat < 0x80 ∧ c ≠ '+')
    (plusIsSpace : Bool) :
    readPart plusIsSpace part = Utf8.decodeText? (Percent.decode (Utf8.encode part)) := by
  have hspaced : (Utf8.encode part).map (fun b => if b = 0x2B then 0x20 else b) =
      Utf8.encode part := by
    rw [Utf8.encode_of_ascii fun c hc => (h c hc).1, List.map_map]
    refine List.map_congr_left fun c hc => if_neg fun hplus => ?_
    have hn : c.toNat = 0x2B := by
      have hbound := (h c hc).1
      rw [← Utf8.toNat_ofNat_of_lt (show c.toNat < 256 by omega)]
      exact congrArg UInt8.toNat hplus
    exact (h c hc).2 (Char.toNat_inj.mp hn)
  cases plusIsSpace with
  | false => rfl
  | true => simp only [readPart, if_true, hspaced]

theorem readPart_encode (plusIsSpace : Bool) (s : String) :
    readPart plusIsSpace (Percent.encode s).toList = some s := by
  have hascii : ∀ c ∈ (Percent.encode s).toList, c.toNat < 0x80 ∧ c ≠ '+' := by
    intro c hc
    refine ⟨Percent.toNat_lt_of_isEncoded (Percent.isEncoded_encode hc), ?_⟩
    rintro rfl
    exact Percent.not_mem_encode rfl s hc
  rw [readPart_of_ascii hascii, Percent.encode, String.toList_ofList, Percent.decode_encodeBytes,
    Utf8.decodeText?_encodeText]

theorem readPart_ofNat (plusIsSpace : Bool) (n : Nat) :
    readPart plusIsSpace (Decimal.ofNat n).toList = some (Decimal.ofNat n) := by
  have hascii : ∀ c ∈ (Decimal.ofNat n).toList, c.toNat < 0x80 := by
    intro c hc
    rw [Decimal.toList_ofNat] at hc
    have hdigit := Decimal.isDigit_of_mem hc
    omega
  have hne : ∀ d : Char, d.toNat < 48 → ∀ c ∈ (Decimal.ofNat n).toList, c ≠ d := by
    rintro d hd c hc rfl
    exact Decimal.not_mem_ofNat (.inl hd) n hc
  rw [readPart_of_ascii fun c hc => ⟨hascii c hc, hne '+' (by decide) c hc⟩,
    Percent.decode_encode_of_not_mem fun hc => hne '%' (by decide) _ hc rfl]
  exact Utf8.decodeText?_encodeText _

def parameter (name : String) (value : String) : List Char :=
  name.toList ++ '=' :: value.toList

def quotaQuery (key : String) : List Char :=
  parameter "key" (Percent.encode key)

def historyQuery (key : String) (page pageSize : UInt32) : List Char :=
  parameter "key" (Percent.encode key) ++ '&' ::
    (parameter "page" (Decimal.ofNat page.toNat) ++ '&' ::
      parameter "page_size" (Decimal.ofNat pageSize.toNat))

theorem not_mem_parameter {c : Char} {name value : String} (hc : c ≠ '=') (hname : c ∉ name.toList)
    (hvalue : c ∉ value.toList) : c ∉ parameter name value := by
  simp [parameter, hc, hname, hvalue]

theorem readParameter {plusIsSpace : Bool} {name value s : String} (hname : '=' ∉ name.toList)
    (hvalue : '=' ∉ value.toList) (hread : readPart plusIsSpace value.toList = some s) :
    (splitOn '=' (parameter name value)).map (readPart plusIsSpace) =
      [readPart plusIsSpace name.toList, some s] := by
  rw [parameter, splitOn_append_cons hname, splitOn_of_not_mem hvalue, List.map_cons,
    List.map_singleton, hread]

theorem hash_not_mem_quotaQuery (key : String) : '#' ∉ quotaQuery key :=
  not_mem_parameter (by decide) (by decide) (Percent.not_mem_encode rfl key)

theorem hash_not_mem_historyQuery (key : String) (page pageSize : UInt32) :
    '#' ∉ historyQuery key page pageSize := by
  have hkey := hash_not_mem_quotaQuery key
  have hnumber : ∀ {name : String} (n : Nat), '#' ∉ name.toList →
      '#' ∉ parameter name (Decimal.ofNat n) := fun n hname =>
    not_mem_parameter (by decide) hname (Decimal.not_mem_ofNat (.inl (by decide)) n)
  simp only [historyQuery, List.mem_append, List.mem_cons, not_or]
  exact ⟨hkey, by decide, hnumber _ (by decide), by decide, hnumber _ (by decide)⟩

theorem toList_quotaPath (key : String) :
    (quotaPath key).toList = "/api/query/token".toList ++ '?' :: quotaQuery key := by
  unfold quotaPath
  simp [quotaQuery, parameter]

theorem toList_historyPath (key : String) (page pageSize : UInt32) :
    (historyPath key page pageSize).toList =
      "/api/query/token/history".toList ++ '?' :: historyQuery key page pageSize := by
  unfold historyPath
  simp [historyQuery, parameter]

theorem readQuery_quota (plusIsSpace : Bool) (key : String) :
    readQuery plusIsSpace (quotaQuery key) = [[some "key", some key]] := by
  have hkey : readPart plusIsSpace "key".toList = some "key" := by cases plusIsSpace <;> rfl
  have hparameter : '&' ∉ parameter "key" (Percent.encode key) :=
    not_mem_parameter (by decide) (by decide) (Percent.not_mem_encode rfl key)
  rw [readQuery, quotaQuery, splitOn_of_not_mem hparameter, List.map_singleton,
    readParameter (by decide) (Percent.not_mem_encode rfl key) (readPart_encode plusIsSpace key),
    hkey]

theorem readQuery_history (plusIsSpace : Bool) (key : String) (page pageSize : UInt32) :
    readQuery plusIsSpace (historyQuery key page pageSize) =
      [[some "key", some key], [some "page", some (Decimal.ofNat page.toNat)],
        [some "page_size", some (Decimal.ofNat pageSize.toNat)]] := by
  have hkey : readPart plusIsSpace "key".toList = some "key" := by cases plusIsSpace <;> rfl
  have hpage : readPart plusIsSpace "page".toList = some "page" := by cases plusIsSpace <;> rfl
  have hsize : readPart plusIsSpace "page_size".toList = some "page_size" := by
    cases plusIsSpace <;> rfl
  have hcode : ∀ {c}, Percent.isEncoded c = false → c ∉ (Percent.encode key).toList :=
    fun hc => Percent.not_mem_encode hc key
  rw [readQuery, historyQuery,
    splitOn_append_cons (not_mem_parameter (by decide) (by decide) (hcode rfl)),
    splitOn_append_cons
      (not_mem_parameter (by decide) (by decide) (Decimal.not_mem_ofNat (.inl (by decide)) _)),
    splitOn_of_not_mem
      (not_mem_parameter (by decide) (by decide) (Decimal.not_mem_ofNat (.inl (by decide)) _)),
    List.map_cons, List.map_cons, List.map_singleton,
    readParameter (by decide) (hcode rfl) (readPart_encode plusIsSpace key),
    readParameter (by decide) (Decimal.not_mem_ofNat (.inr (by decide)) _) (readPart_ofNat plusIsSpace _),
    readParameter (by decide) (Decimal.not_mem_ofNat (.inr (by decide)) _) (readPart_ofNat plusIsSpace _),
    hkey, hpage, hsize]

theorem readRecord_update (name value : String) :
    (body? (.update name value)).bind readRecord =
      some [("key", some name), ("value", some value)] := by
  have hexact : (Wire.updateValue name value).isExact = true := rfl
  rw [body?, Option.bind_some, readRecord, Wire.bytes, Value.parse?_print hexact]
  simp only [Wire.updateValue, Value.tree, Value.memberTrees, Wire.namedMembers?,
    Quoted.text?_ofText, Option.map_some, List.map_cons, List.map_nil, Wire.text?]

theorem cut_quotaPath (key : String) :
    cut '?' (quotaPath key).toList = ("/api/query/token".toList, some (quotaQuery key)) := by
  rw [toList_quotaPath, cut_append_cons (by decide)]

theorem cut_historyPath (key : String) (page pageSize : UInt32) :
    cut '?' (historyPath key page pageSize).toList =
      ("/api/query/token/history".toList, some (historyQuery key page pageSize)) := by
  rw [toList_historyPath, cut_append_cons (by decide)]

def place (c : Call) : List Char :=
  (cut '?' (path c).toList).1

theorem place_eq (c : Call) : place c =
    match c with
    | .quota _ => "/api/query/token".toList
    | .history .. => "/api/query/token/history".toList
    | .options | .update .. => optionPath.toList
    | .status => statusPath.toList
    | .trigger => triggerPath.toList := by
  cases c with
  | quota key => exact congrArg Prod.fst (cut_quotaPath key)
  | history key page pageSize => exact congrArg Prod.fst (cut_historyPath key page pageSize)
  | options => decide
  | update name value =>
    show (cut '?' optionPath.toList).1 = optionPath.toList
    decide
  | status => decide
  | trigger => decide

theorem call_eq_of_request {c c' : Call} (hmethod : method c = method c') (hpath : path c = path c')
    (hbody : body? c = body? c') : c = c' := by
  have hplace : place c = place c' := by rw [place, place, hpath]
  rw [place_eq, place_eq] at hplace
  cases c <;> cases c' <;> dsimp only at hplace <;>
    first | rfl | (cases hmethod; done) | exact absurd hplace (by decide) | skip
  case quota.quota key key' =>
    have hquery : quotaQuery key = quotaQuery key' := by
      have hcut := congrArg (fun p : String => cut '?' p.toList) hpath
      simpa only [path, cut_quotaPath, Prod.mk.injEq, Option.some.injEq, true_and] using hcut
    have hread := congrArg (readQuery false) hquery
    rw [readQuery_quota, readQuery_quota] at hread
    simpa using hread
  case history.history key page size key' page' size' =>
    have hquery : historyQuery key page size = historyQuery key' page' size' := by
      have hcut := congrArg (fun p : String => cut '?' p.toList) hpath
      simpa only [path, cut_historyPath, Prod.mk.injEq, Option.some.injEq, true_and] using hcut
    have hread := congrArg (readQuery false) hquery
    rw [readQuery_history, readQuery_history] at hread
    simpa [Decimal.ofNat_inj, UInt32.toNat_inj] using hread
  case update.update name value name' value' =>
    have hread := congrArg (fun b : Option (List UInt8) => b.bind readRecord) hbody
    simp only [readRecord_update] at hread
    simpa using hread

theorem request?_eq_iff (client : Client) (c c' : Call) :
    client.request? c = client.request? c' ↔ c = c' ∨ client.request? c = none := by
  unfold request?
  dsimp only
  split
  · refine ⟨fun h => .inl ?_, ?_⟩
    · simp only [Option.some.injEq, HttpRequest.mk.injEq, String.append_right_inj, true_and] at h
      obtain ⟨hmethod, hpath, hcontent, hbody⟩ := h
      refine call_eq_of_request hmethod hpath ?_
      rcases hc : body? c with _ | b <;> rcases hc' : body? c' with _ | b' <;> simp_all
    · rintro (rfl | h)
      · rfl
      · cases h
  · simp

/-- Every call is sent with its own arguments and nothing else. -/
theorem requests_exact :
    (∀ key, ∃ query,
      cut '?' (path (.quota key)).toList = ("/api/query/token".toList, some query) ∧
      '#' ∉ query ∧
      ∀ plusIsSpace, readQuery plusIsSpace query = [[some "key", some key]]) ∧
    (∀ key page pageSize, ∃ query,
      cut '?' (path (.history key page pageSize)).toList =
        ("/api/query/token/history".toList, some query) ∧
      '#' ∉ query ∧
      ∀ plusIsSpace, readQuery plusIsSpace query =
        [[some "key", some key], [some "page", some (Decimal.ofNat page.toNat)],
          [some "page_size", some (Decimal.ofNat pageSize.toNat)]]) ∧
    (∀ name value, path (.update name value) = optionPath ∧
      (body? (.update name value)).bind readRecord =
        some [("key", some name), ("value", some value)]) ∧
    (∀ (client : Client) (c c' : Call),
      client.request? c = client.request? c' ↔ c = c' ∨ client.request? c = none) := by
  refine ⟨fun key => ⟨_, cut_quotaPath key, hash_not_mem_quotaQuery key, ?_⟩,
    fun key page size => ⟨_, cut_historyPath key page size,
      hash_not_mem_historyQuery key page size, ?_⟩,
    fun name value => ⟨rfl, readRecord_update name value⟩, request?_eq_iff⟩
  · exact fun plusIsSpace => readQuery_quota plusIsSpace key
  · exact fun plusIsSpace => readQuery_history plusIsSpace key page size

end QuotaDesk.Client
