import Mathlib.Data.Char
import Mathlib.Data.List.Lex
import Mathlib.Data.List.Sort
import Mathlib.Data.List.TakeWhile
import BurnedChats.Lib.Table
import BurnedChats.Backend.TonAddress

/-!
# Signed init data of the Telegram Mini App

`validateInitData` decodes the pairs of a query string into a sorted map, takes `hash`
out, renders the rest as lines `key=value` and compares the signature of that rendering.
The decoded texts may contain line feeds, so one rendering can be read as several maps:
a value may swallow the lines that follow it.

What a rendering does determine is its lines (`splitOn_buildDataCheckString`), and with
them every value up to its first line feed (`firstLine_mem`). A date has no line feed. A
user may go on after its line, and there the JSON parser decides.
-/

namespace BurnedChats

open Encoding
open Buffer (Bytes)

namespace TelegramAuth

/-! ## The platform -/

/-- Digits, `new String(bytes, UTF_8)`, and HMAC-SHA256 under the bot's secret key. -/
structure Platform where
  jdk : Jdk
  newString : Bytes → List Char
  mac : List Char → Bytes

/-- A JSON tree model; `get` returns the fields that `has` sees. -/
structure ObjectMapper (Node : Type) where
  readTree : List Char → Option Node
  get : Node → String → Option Node
  isNull : Node → Bool
  asLong : Node → Int
  asText : Node → List Char
  asBoolean : Node → Bool

/-- `Long.parseLong`. -/
def parseLong (jdk : Jdk) (l : List Char) : Option Int :=
  (jdk.bigInteger 10 l).filter fun n => decide (-2 ^ 63 ≤ n ∧ n < 2 ^ 63)

def isBlank (l : List Char) : Bool := l.all isWhitespace

/-- The escaped bytes and the other characters of a text; `+` is a space. An escape is read
by `Integer.parseInt`, which takes a sign for a digit. -/
def tokens (jdk : Jdk) : List Char → Option (List (UInt8 ⊕ Char))
  | [] => some []
  | '+' :: l => (tokens jdk l).map (.inr ' ' :: ·)
  | '%' :: a :: b :: l => do
      let v ← (jdk.bigInteger 16 [a, b]).filter (0 ≤ ·)
      let rest ← tokens jdk l
      some (.inl (UInt8.ofNat v.toNat) :: rest)
  | '%' :: _ => none
  | c :: l => (tokens jdk l).map (.inr c :: ·)

/-- Every run of escaped bytes is one string. -/
def assemble (newString : Bytes → List Char) : Bytes → List (UInt8 ⊕ Char) → List Char
  | pending, [] => newString pending
  | pending, .inl b :: l => assemble newString (pending ++ [b]) l
  | pending, .inr c :: l => newString pending ++ c :: assemble newString [] l

/-- `URLDecoder.decode`. -/
def decode (p : Platform) (l : List Char) : Option (List Char) :=
  (tokens p.jdk l).map (assemble p.newString [])

/-! ## Parameters -/

abbrev Params := Table (List Char) (List Char)

/-- The entries of a `TreeMap`, by key. -/
def entrySet (params : Params) : List (Sigma fun _ : List Char => List Char) :=
  params.entries.insertionSort fun a b => a.1 ≤ b.1

/-- One pair; without a key or without `=` it is skipped. -/
def putPair (p : Platform) (params : Params) (pair : List Char) : Option Params :=
  match pair.takeWhile (· != '='), pair.dropWhile (· != '=') with
  | k :: ks, _ :: rest => do
      let key ← decode p (k :: ks)
      let value ← decode p rest
      some (params.insert key value)
  | _, _ => some params

def parseInitData (p : Platform) (initData : List Char) : Option Params :=
  (initData.splitOn '&').foldlM (putPair p) ∅

/-- `key=value`. -/
def line (e : Sigma fun _ : List Char => List Char) : List Char := e.1 ++ '=' :: e.2

/-- Every line but the first after a line feed. -/
def joinLines : List (List Char) → List Char
  | [] => []
  | l :: ls => l ++ ls.flatMap ('\n' :: ·)

def buildDataCheckString (params : Params) : List Char :=
  joinLines ((entrySet params).map line)

def computeHash (p : Platform) (dataCheckString : List Char) : List Char :=
  formatHex (p.mac dataCheckString)

def getBytes (l : List Char) : Bytes := (String.ofList l).toUTF8.data.toList

/-- The lengths and then the disjunction of all differences. -/
def constantTimeEquals (a b : List Char) : Bool :=
  let utf8Left := getBytes a
  let utf8Right := getBytes b
  if utf8Left.length ≠ utf8Right.length then false
  else (utf8Left.zipWith (· ^^^ ·) utf8Right).foldl (· ||| ·) 0 == 0

/-! ## Validated data -/

structure TelegramUser where
  id : Option Int
  username : Option (List Char)
  firstName : Option (List Char)
  lastName : Option (List Char)
  languageCode : Option (List Char)
  photoUrl : Option (List Char)
  isPremium : Bool
deriving DecidableEq

structure TelegramInitData where
  user : Option TelegramUser
  /-- In seconds since the epoch. -/
  authDate : Int
  hash : List Char
  queryId : Option (List Char)
  chatType : Option (List Char)
  chatInstance : Option (List Char)
  startParam : Option (List Char)
  canSendAfter : Option Bool
deriving DecidableEq

section Validation

variable {Node : Type} (p : Platform) (json : ObjectMapper Node)

def getTextOrNull (node : Node) (field : String) : Option (List Char) :=
  ((json.get node field).filter fun n => !json.isNull n).map json.asText

/-- The user object of a tree. -/
def userOf (node : Node) : TelegramUser where
  id := (json.get node "id").map json.asLong
  username := getTextOrNull json node "username"
  firstName := getTextOrNull json node "first_name"
  lastName := getTextOrNull json node "last_name"
  languageCode := getTextOrNull json node "language_code"
  photoUrl := getTextOrNull json node "photo_url"
  isPremium := (json.get node "is_premium").any json.asBoolean

def parseUserJson (userJson : List Char) : Except String TelegramUser :=
  match json.readTree userJson with
  | some node => .ok (userOf json node)
  | none => .error "Failed to parse user data"

def missingField {α : Type} (field : String) : Except String α :=
  .error ("Missing required field: " ++ field)

/-- `Instant.ofEpochSecond` and the range of an `Instant`. -/
def ofEpochSecond (n : Int) : Option Int :=
  if -31557014167219200 ≤ n ∧ n ≤ 31556889864403199 then some n else none

def parseAuthDate (authDateStr : Option (List Char)) : Except String Int :=
  match authDateStr.filter fun s => !isBlank s with
  | none => missingField "auth_date"
  | some s =>
      match parseLong p.jdk s with
      | none => missingField "auth_date"
      | some n => orThrow "Failed to validate authentication data" (ofEpochSecond n)

def parseUser (userJson : Option (List Char)) : Except String (Option TelegramUser) :=
  match userJson.filter fun s => !isBlank s with
  | none => .ok none
  | some s => (parseUserJson json s).map some

/-- `Boolean.parseBoolean` of a text that is not blank. -/
def parseCanSendAfter (canSendAfter : Option (List Char)) : Option Bool :=
  (canSendAfter.filter fun s => !isBlank s).map fun s => s.map Char.toLower == "true".toList

def parseValidatedData (params : Params) (hash : List Char) : Except String TelegramInitData := do
  let authDate ← parseAuthDate p (params.lookup "auth_date".toList)
  let user ← parseUser json (params.lookup "user".toList)
  return {
    user, authDate, hash
    queryId := params.lookup "query_id".toList
    chatType := params.lookup "chat_type".toList
    chatInstance := params.lookup "chat_instance".toList
    startParam := params.lookup "start_param".toList
    canSendAfter := parseCanSendAfter (params.lookup "can_send_after".toList) }

/-- Past the date by more than the age; on a clock of milliseconds. -/
def isExpired (maxAge now : Int) (authDate : Int) : Except String Bool := do
  let expirationTime ← orThrow "Failed to validate authentication data"
    (ofEpochSecond (authDate + maxAge))
  return decide (expirationTime * 1000 < now)

def validateInitData (maxAge now : Int) (initData : Option (List Char)) :
    Except String TelegramInitData :=
  match initData.filter fun s => !isBlank s with
  | none => missingField "initData"
  | some initData => do
      let parsed ← orThrow "Failed to validate authentication data" (parseInitData p initData)
      let params := parsed.erase "hash".toList
      match (parsed.lookup "hash".toList).filter fun s => !isBlank s with
      | none => missingField "hash"
      | some providedHash =>
          if !constantTimeEquals (computeHash p (buildDataCheckString params)) providedHash then
            .error "Invalid initData signature"
          else
            let result ← parseValidatedData p json params providedHash
            let expired ← isExpired maxAge now result.authDate
            if expired then .error "Authentication data has expired" else .ok result

end Validation

/-! ## The comparison -/

theorem foldl_or_eq_zero (l : Bytes) (x : UInt8) (h : l.foldl (· ||| ·) x = 0) :
    x = 0 ∧ ∀ y ∈ l, y = 0 := by
  induction l generalizing x with
  | nil => exact ⟨h, fun y hy => by cases hy⟩
  | cons z l ih =>
      obtain ⟨hxz, hl⟩ := ih _ h
      obtain ⟨hx, hz⟩ := UInt8.or_eq_zero_iff.mp hxz
      refine ⟨hx, fun y hy => ?_⟩
      rcases List.mem_cons.mp hy with rfl | hy
      · exact hz
      · exact hl y hy

theorem eq_of_zipWith_xor {a b : Bytes} (hlen : a.length = b.length)
    (h : ∀ y ∈ a.zipWith (· ^^^ ·) b, y = 0) : a = b := by
  induction a generalizing b with
  | nil => exact (List.length_eq_zero_iff.mp hlen.symm).symm
  | cons x a ih =>
      cases b with
      | nil => cases hlen
      | cons y b =>
          simp only [List.zipWith_cons_cons, List.mem_cons, forall_eq_or_imp] at h
          rw [UInt8.xor_eq_zero_iff.mp h.1, ih (Nat.succ.inj hlen) h.2]

theorem getBytes_injective {a b : List Char} (h : getBytes a = getBytes b) : a = b := by
  have hbytes : (String.ofList a).toByteArray = (String.ofList b).toByteArray :=
    ByteArray.ext (Array.toList_inj.mp h)
  exact String.ofList_injective (String.toByteArray_inj.mp hbytes)

theorem eq_of_constantTimeEquals {a b : List Char} (h : constantTimeEquals a b = true) :
    a = b := by
  unfold constantTimeEquals at h
  dsimp only at h
  split at h
  · cases h
  · rename_i hlen
    have hzero := (foldl_or_eq_zero _ 0 (eq_of_beq h)).2
    exact getBytes_injective (eq_of_zipWith_xor (Decidable.not_not.mp hlen) hzero)

/-! ## The lines of a rendering -/

/-- Without the line feed no digit, so none in a number. -/
theorem magnitude_digits {jdk : Jdk} {radix n : Nat} {l : List Char}
    (h : jdk.magnitude radix l = some n) : ∀ c ∈ l, (jdk.digit c radix).isSome = true := by
  have hfold : ∀ (l : List Char) (m n : Nat),
      l.foldlM (fun n c => (jdk.digit c radix).map (n * radix + ·)) m = some n →
        ∀ c ∈ l, (jdk.digit c radix).isSome = true := by
    intro l
    induction l with
    | nil => exact fun _ _ _ c hc => by cases hc
    | cons d l ih =>
        intro m n h c hc
        obtain ⟨m', hm, hl⟩ := Option.bind_eq_some_iff.mp h
        rcases List.mem_cons.mp hc with rfl | hc
        · obtain ⟨v, hv, -⟩ := Option.map_eq_some_iff.mp hm
          rw [hv]
          rfl
        · exact ih m' n hl c hc
  cases l with
  | nil => cases h
  | cons d l => exact hfold (d :: l) 0 n h

theorem parseLong_newline {jdk : Jdk} {l : List Char} {n : Int}
    (hdigit : jdk.digit '\n' 10 = none) (h : parseLong jdk l = some n) : '\n' ∉ l := by
  intro hmem
  have hbig := (Option.filter_eq_some_iff.mp h).1
  have hnone : ∀ {l : List Char} {m : Nat}, jdk.magnitude 10 l = some m → '\n' ∉ l := by
    intro l m hm hl
    have hsome := magnitude_digits hm _ hl
    rw [hdigit] at hsome
    cases hsome
  unfold Jdk.bigInteger at hbig
  split at hbig
  · obtain ⟨m, hm, -⟩ := Option.map_eq_some_iff.mp hbig
    obtain ⟨m, hm, -⟩ := Option.bind_eq_some_iff.mp hm
    exact hnone hm (by simpa using hmem)
  · obtain ⟨m, hm, -⟩ := Option.map_eq_some_iff.mp hbig
    obtain ⟨m, hm, -⟩ := Option.bind_eq_some_iff.mp hm
    exact hnone hm (by simpa using hmem)
  · obtain ⟨m, hm, -⟩ := Option.map_eq_some_iff.mp hbig
    obtain ⟨m, hm, -⟩ := Option.bind_eq_some_iff.mp hm
    exact hnone hm hmem

/-- A rendering is the lines of its parts. -/
theorem splitOn_joinLines (l : List Char) (ls : List (List Char)) :
    (joinLines (l :: ls)).splitOn '\n' = (l :: ls).flatMap (List.splitOn '\n') := by
  induction ls generalizing l with
  | nil => simp [joinLines]
  | cons m ls ih =>
      have hcons : joinLines (l :: m :: ls) = l ++ '\n' :: joinLines (m :: ls) := by
        simp [joinLines]
      rw [hcons, List.splitOn_append_cons_self, ih]
      exact (List.flatMap_cons ..).symm

/-- A text and its first line. -/
theorem firstLine_cases (l : List Char) :
    ('\n' ∉ l ∧ l.takeWhile (· != '\n') = l) ∨
      ∃ rest, '\n' ∉ l.takeWhile (· != '\n') ∧ l = l.takeWhile (· != '\n') ++ '\n' :: rest := by
  have hsplit : l.takeWhile (· != '\n') ++ l.dropWhile (· != '\n') = l :=
    List.takeWhile_append_dropWhile
  have hnot : '\n' ∉ l.takeWhile (· != '\n') := fun hm => by
    simpa using List.mem_takeWhile_imp hm
  cases hd : l.dropWhile (· != '\n') with
  | nil =>
      rw [hd, List.append_nil] at hsplit
      exact .inl ⟨hsplit ▸ hnot, hsplit⟩
  | cons c rest =>
      have hc : c = '\n' := by
        have hhead := List.head?_dropWhile_not (· != '\n') l
        rw [hd] at hhead
        simpa using hhead
      rw [hd, hc] at hsplit
      exact .inr ⟨rest, hnot, hsplit.symm⟩

theorem takeWhile_mem_splitOn (l : List Char) :
    l.takeWhile (· != '\n') ∈ l.splitOn '\n' := by
  rcases firstLine_cases l with ⟨hnot, hall⟩ | ⟨rest, hnot, heq⟩
  · rw [hall, List.splitOn_eq_singleton hnot]
    exact List.mem_singleton_self l
  · have hlines := List.splitOn_append_cons_self_of_not_mem hnot rest
    rw [← heq] at hlines
    rw [hlines]
    exact List.mem_cons_self

theorem mem_entrySet {params : Params} {e : Sigma fun _ : List Char => List Char} :
    e ∈ entrySet params ↔ params.lookup e.1 = some e.2 := by
  rw [entrySet, (List.perm_insertionSort _ _).mem_iff, ← Table.mem_entries_iff]

/-- A line is read at its first equals sign. -/
theorem line_inj {k k' v v' : List Char} (hk : '=' ∉ k) (hk' : '=' ∉ k')
    (h : line ⟨k, v⟩ = line ⟨k', v'⟩) : k = k' ∧ v = v' := by
  have key : ∀ {k v : List Char}, '=' ∉ k → (line ⟨k, v⟩).takeWhile (· != '=') = k := by
    intro k v hk
    have hall : ∀ c ∈ k, (c != '=') = true := fun c hc => by
      simp only [bne_iff_ne, ne_eq]
      rintro rfl
      exact hk hc
    rw [line, List.takeWhile_append_of_pos hall]
    simp
  obtain rfl : k = k' := by rw [← key (v := v) hk, ← key (v := v') hk', h]
  exact ⟨rfl, (List.cons.inj (List.append_cancel_left h)).2⟩

/-- A map as the platform signs it: neither keys nor values have a line feed, and no key an
equals sign. -/
def Plain (params : Params) : Prop :=
  ∀ k v, params.lookup k = some v → '\n' ∉ k ∧ '\n' ∉ v ∧ '=' ∉ k

/-- The lines of a plain map are its entries. -/
theorem splitOn_buildDataCheckString {params : Params} (h : Plain params)
    (hne : entrySet params ≠ []) :
    (buildDataCheckString params).splitOn '\n' = (entrySet params).map line := by
  have hlines : ∀ l ∈ (entrySet params).map line, l.splitOn '\n' = [l] := by
    intro l hl
    obtain ⟨e, he, rfl⟩ := List.mem_map.mp hl
    obtain ⟨hk, hv, -⟩ := h _ _ (mem_entrySet.mp he)
    exact List.splitOn_eq_singleton (by simp [line, hk, hv])
  unfold buildDataCheckString
  cases hl : (entrySet params).map line with
  | nil => exact absurd (List.map_eq_nil_iff.mp hl) hne
  | cons l ls =>
      rw [hl] at hlines
      rw [splitOn_joinLines, List.flatMap_congr hlines, List.flatMap_singleton']

/-- Two maps with one rendering, the second plain: a value of the first is, up to its first
line feed, the value of the second. -/
theorem firstLine_lookup {params M₀ : Params} (hplain : Plain M₀) (hne : entrySet M₀ ≠ [])
    (heq : buildDataCheckString params = buildDataCheckString M₀) {k v : List Char}
    (hk : '\n' ∉ k) (hk' : '=' ∉ k) (h : params.lookup k = some v) :
    M₀.lookup k = some (v.takeWhile (· != '\n')) := by
  have hmem : line ⟨k, v⟩ ∈ (entrySet params).map line :=
    List.mem_map_of_mem (mem_entrySet.mpr h)
  have hfirst : (line ⟨k, v⟩).takeWhile (· != '\n') = line ⟨k, v.takeWhile (· != '\n')⟩ := by
    have hall : ∀ c ∈ k, (c != '\n') = true := fun c hc => by
      simp only [bne_iff_ne, ne_eq]
      rintro rfl
      exact hk hc
    rw [line, List.takeWhile_append_of_pos hall]
    rfl
  have hline : line ⟨k, v.takeWhile (· != '\n')⟩ ∈ (entrySet M₀).map line := by
    rw [← splitOn_buildDataCheckString hplain hne, ← heq, ← hfirst]
    unfold buildDataCheckString
    cases hl : (entrySet params).map line with
    | nil => rw [hl] at hmem; cases hmem
    | cons l ls =>
        rw [splitOn_joinLines]
        rw [hl] at hmem
        exact List.mem_flatMap.mpr ⟨_, hmem, takeWhile_mem_splitOn _⟩
  obtain ⟨⟨k', v'⟩, he, hsame⟩ := List.mem_map.mp hline
  have hlookup := mem_entrySet.mp he
  obtain ⟨-, -, hk''⟩ := hplain _ _ hlookup
  obtain ⟨hkeys, hvalues⟩ := line_inj hk'' hk' hsame
  rw [← hkeys, ← hvalues]
  exact hlookup

/-! ## What a signature determines -/

section Validation

variable {Node : Type} {p : Platform} {json : ObjectMapper Node}

/-- What an accepted string has shown: a map with the signature it carries, and from that
map the date and the user. -/
theorem validateInitData_ok {maxAge now : Int} {initData : Option (List Char)}
    {result : TelegramInitData}
    (h : validateInitData p json maxAge now initData = .ok result) :
    ∃ params : Params, result.hash = computeHash p (buildDataCheckString params) ∧
      parseAuthDate p (params.lookup "auth_date".toList) = .ok result.authDate ∧
      parseUser json (params.lookup "user".toList) = .ok result.user := by
  unfold validateInitData at h
  split at h
  · cases h
  · obtain ⟨parsed, -, h⟩ := exists_of_bind_eq_ok h
    dsimp only at h
    split at h
    · cases h
    · rename_i providedHash _
      split at h
      · cases h
      · rename_i hsig
        obtain ⟨validated, hparse, h⟩ := exists_of_bind_eq_ok h
        obtain ⟨expired, -, h⟩ := exists_of_bind_eq_ok h
        split at h
        · cases h
        · obtain rfl := Except.ok.inj h
          obtain ⟨authDate, hdate, hparse⟩ := exists_of_bind_eq_ok hparse
          obtain ⟨user, huser, hparse⟩ := exists_of_bind_eq_ok hparse
          obtain rfl := Except.ok.inj hparse
          refine ⟨_, ?_, hdate, huser⟩
          simp only [Bool.not_eq_true', Bool.not_eq_false] at hsig
          exact (eq_of_constantTimeEquals hsig).symm

/-- The parser reads the first value of a text; what follows on a line of its own may be
refused or ignored. -/
def ReadsFirst (json : ObjectMapper Node) : Prop :=
  ∀ v rest node, isBlank v = false → json.readTree v = some node →
    json.readTree (v ++ '\n' :: rest) = none ∨ json.readTree (v ++ '\n' :: rest) = some node

/-- Every string that is accepted with the signature of a plain map has its date; and if it
has a user, so has the map, and it is the user parsed from there where the map's own value
is a JSON text. -/
theorem initData_determined (hmac : Function.Injective p.mac)
    (hdigit : p.jdk.digit '\n' 10 = none) (hjson : ReadsFirst json) {M₀ : Params}
    (hplain : Plain M₀) (hauth : (M₀.lookup "auth_date".toList).isSome = true)
    {maxAge now : Int} {initData : Option (List Char)} {result : TelegramInitData}
    (h : validateInitData p json maxAge now initData = .ok result)
    (hsig : result.hash = computeHash p (buildDataCheckString M₀)) :
    parseAuthDate p (M₀.lookup "auth_date".toList) = .ok result.authDate ∧
      ∀ user, result.user = some user → ∃ v, M₀.lookup "user".toList = some v ∧
        ∀ node, isBlank v = false → json.readTree v = some node → user = userOf json node := by
  obtain ⟨params, hhash, hdate, huser⟩ := validateInitData_ok h
  have heq : buildDataCheckString params = buildDataCheckString M₀ :=
    hmac (formatHex_injective (hhash.symm.trans hsig))
  have hne : entrySet M₀ ≠ [] := fun hnil => by
    obtain ⟨v, hv⟩ := Option.isSome_iff_exists.mp hauth
    have hmem := mem_entrySet (e := ⟨_, v⟩).mpr hv
    rw [hnil] at hmem
    cases hmem
  refine ⟨?_, fun user hu => ?_⟩
  · cases hlookup : params.lookup "auth_date".toList with
    | none => rw [hlookup] at hdate; cases hdate
    | some v =>
        have hfirst := firstLine_lookup hplain hne heq (by decide) (by decide) hlookup
        have hline : '\n' ∉ v := by
          rw [hlookup] at hdate
          unfold parseAuthDate at hdate
          split at hdate
          · cases hdate
          · rename_i s hs
            obtain ⟨hs, -⟩ := Option.filter_eq_some_iff.mp hs
            obtain rfl := Option.some.inj hs
            split at hdate
            · cases hdate
            · rename_i n hn
              exact parseLong_newline hdigit hn
        rcases firstLine_cases v with ⟨-, hall⟩ | ⟨rest, -, hv⟩
        · rw [hfirst, hall, ← hlookup]
          exact hdate
        · exact absurd (by rw [hv]; simp) hline
  · rw [hu] at huser
    unfold parseUser at huser
    split at huser
    · cases huser
    · rename_i s hs
      obtain ⟨hlookup, -⟩ := Option.filter_eq_some_iff.mp hs
      have hfirst := firstLine_lookup hplain hne heq (by decide) (by decide) hlookup
      refine ⟨_, hfirst, fun node hblank hnode => ?_⟩
      have hread : json.readTree s = none ∨ json.readTree s = some node := by
        rcases firstLine_cases s with ⟨-, hall⟩ | ⟨rest, -, hv⟩
        · exact .inr (hall ▸ hnode)
        · rw [hv]
          exact hjson _ rest node hblank hnode
      unfold parseUserJson at huser
      rcases hread with hr | hr
      · rw [hr] at huser
        cases huser
      · rw [hr] at huser
        exact (Option.some.inj (Except.ok.inj huser)).symm

end Validation

/-! ## Two readings of one rendering -/

/-- Latin text; the signature is the text itself. -/
def latinText : Platform where
  jdk := latin
  newString bytes := bytes.map fun b => Char.ofNat b.toNat
  mac := getBytes

def sevenText : List Char := ['{', '"', 'i', 'd', '"', ':', '7', '}']

/-- A parser that knows one object, with the number 7 under `id`; the nodes are the object
and its number. -/
def seven : ObjectMapper Bool where
  readTree l := if sevenText <+: l.dropWhile isWhitespace then some true else none
  get node field := if node && field == "id" then some false else none
  isNull _ := false
  asLong _ := 7
  asText _ := ['7']
  asBoolean _ := false

theorem seven_readsFirst : ReadsFirst seven := by
  intro v rest node _ h
  have hstarts : sevenText <+: v.dropWhile isWhitespace := by
    by_contra hnot
    simp [seven, hnot] at h
  have hne : v.dropWhile isWhitespace ≠ [] := fun hnil => by
    rw [hnil] at hstarts
    exact absurd (List.prefix_nil.mp hstarts) (by decide)
  have happend : (v ++ '\n' :: rest).dropWhile isWhitespace
      = v.dropWhile isWhitespace ++ '\n' :: rest := by
    rw [List.dropWhile_append, if_neg (by simpa [List.isEmpty_iff] using hne)]
  right
  simp only [seven, happend] at h ⊢
  rw [if_pos (hstarts.trans (List.prefix_append ..))]
  rwa [if_pos hstarts] at h

/-- A map with a user and one more key. -/
def signedMap : Params :=
  (((∅ : Params).insert "auth_date".toList "1".toList).insert "user".toList sevenText).insert
    "zone".toList "x".toList

/-- A map whose user is empty and whose last key spells one. -/
def emptyUser : Params :=
  (((∅ : Params).insert "auth_date".toList "1".toList).insert "user".toList []).insert sevenText
    "x".toList

def withHash (query : String) (params : Params) : Option (List Char) :=
  some (query.toList ++ "&hash=".toList ++ computeHash latinText (buildDataCheckString params))

/-- The user swallows the line of `zone`. -/
def swallowing : Option (List Char) :=
  withHash "auth_date=1&user=%7B%22id%22%3A7%7D%0Azone%3Dx" signedMap

/-- The user swallows the line whose key spells an object. -/
def reread : Option (List Char) :=
  withHash "auth_date=1&user=%0A%7B%22id%22%3A7%7D%3Dx" emptyUser

theorem plain_of_entries {params : Params}
    (h : ∀ e ∈ params.entries, '\n' ∉ e.1 ∧ '\n' ∉ e.2 ∧ '=' ∉ e.1) : Plain params :=
  fun k v hlookup => h ⟨k, v⟩ (Table.mem_entries_iff.mpr hlookup)

theorem exists_ok {α : Type} {x : Except String α} {Q : α → Bool} (h : x.map Q = .ok true) :
    ∃ a, x = .ok a ∧ Q a = true := by
  cases x with
  | error e => cases h
  | ok a => exact ⟨a, rfl, Except.ok.inj h⟩

theorem initData_determined_swallowing : ∃ result,
    validateInitData latinText seven 86400 1000 swallowing = .ok result ∧
      result.authDate = 1 ∧ result.user = some (userOf seven true) := by
  obtain ⟨result, hok, hq⟩ := exists_ok
    (x := validateInitData latinText seven 86400 1000 swallowing)
    (Q := fun result => decide (result.authDate = 1 ∧ result.user.isSome = true ∧
      result.hash = computeHash latinText (buildDataCheckString signedMap))) (by decide +kernel)
  obtain ⟨hdate, huser, hhash⟩ := of_decide_eq_true hq
  obtain ⟨user, hu⟩ := Option.isSome_iff_exists.mp huser
  obtain ⟨-, hdetermined⟩ := initData_determined (p := latinText)
    (fun a b h => getBytes_injective h) (by decide) seven_readsFirst
    (plain_of_entries (by decide)) (by decide) hok hhash
  obtain ⟨v, hv, hnode⟩ := hdetermined user hu
  obtain rfl : sevenText = v := Option.some.inj ((by decide : _ = some sevenText).symm.trans hv)
  exact ⟨result, hok, hdate, hu.trans (congrArg some (hnode true (by decide) (by decide)))⟩

/-- A user that is in no map with that signature: the signed map's user is empty. -/
theorem initData_reread : ¬ ∀ (M₀ : Params) (initData : Option (List Char))
    (result : TelegramInitData), Plain M₀ → (M₀.lookup "auth_date".toList).isSome = true →
      validateInitData latinText seven 86400 1000 initData = .ok result →
      result.hash = computeHash latinText (buildDataCheckString M₀) →
      ∀ user, result.user = some user → ∃ v node, M₀.lookup "user".toList = some v ∧
        seven.readTree v = some node ∧ user = userOf seven node := by
  intro hall
  obtain ⟨result, hok, hq⟩ := exists_ok
    (x := validateInitData latinText seven 86400 1000 reread)
    (Q := fun result => decide (result.user = some (userOf seven true) ∧
      result.hash = computeHash latinText (buildDataCheckString emptyUser))) (by decide +kernel)
  obtain ⟨huser, hhash⟩ := of_decide_eq_true hq
  obtain ⟨v, node, hv, hread, -⟩ :=
    hall emptyUser reread result (plain_of_entries (by decide)) (by decide) hok hhash _ huser
  obtain rfl : [] = v := Option.some.inj ((by decide : _ = some []).symm.trans hv)
  rw [(by decide : seven.readTree [] = none)] at hread
  cases hread

end TelegramAuth

end BurnedChats
