import BurnedChats.Backend.WalletProof
import BurnedChats.Lib.Program

/-!
# Accounts and their credentials

An account is a hash under `user:{id}`; `auth_tg:{telegram}` and
`auth_wallet:{wallet}` lead from a credential to the account that it signs in to.
Each operation of `UserIdentityRepository` reads, checks for conflicts, and
writes hash and mapping by separate commands; only `switchWallet` is one script.
-/

namespace BurnedChats

namespace Identity

open Program

/-! ## The store -/

inductive AuthType where
  | telegram | wallet
deriving DecidableEq

/-- The hash under `user:{id}`. A field that is missing is `none`, or empty where
the empty text stands for no value. -/
structure UserHash where
  internalId : Option String
  authType : Option AuthType
  displayName : Option String
  telegramId : Option Int
  walletAddress : String
  avatarUrl : String

def UserHash.empty : UserHash := ⟨none, none, none, none, "", ""⟩

structure UnifiedUser where
  internalId : String
  authType : AuthType
  displayName : Option String
  telegramId : Option Int
  walletAddress : Option String
  avatarUrl : Option String

/-- What does not expire: the keys' times to live are left out. -/
structure Store where
  users : String → Option UserHash
  authTg : Int → Option String
  authWallet : String → Option String

def Store.empty : Store := ⟨fun _ => none, fun _ => none, fun _ => none⟩

/-- Case folding, the ids derived from Telegram ids, and the parser of TON
addresses; `toRaw` yields nothing for an address that does not parse. -/
structure Platform where
  toLowerCase : String → String
  forTelegramId : Int → String
  toRaw : String → Option String

inductive Command where
  | putAll (internalId : String) (hash : UserHash)
  | putTelegramId (internalId : String) (telegramId : Option Int)
  | putWalletAddress (internalId walletAddress : String)
  | setAuthTg (telegramId : Int) (internalId : String)
  | setAuthWallet (walletAddress internalId : String)
  | deleteAuthTg (telegramId : Int)
  | deleteAuthWallet (walletAddress : String)
  /-- The script `SWITCH_WALLET`. -/
  | switchWallet (internalId canonical : String)

/-- `HSET` of one field; a missing hash is created. -/
def Store.put (s : Store) (u : String) (f : UserHash → UserHash) : Store :=
  { s with users := Function.update s.users u (some (f ((s.users u).getD .empty))) }

/-- The hash that a write to the account starts from. -/
def Store.hash (s : Store) (u : String) : UserHash := (s.users u).getD .empty

inductive Switched where
  | ok | conflict | noWallet
deriving DecidableEq

/-- What the script returns. -/
def Store.switched (s : Store) (internalId canonical : String) : Switched :=
  let current := ((s.users internalId).getD .empty).walletAddress
  if current = "" then .noWallet
  else if ((s.authWallet canonical).any fun existing => existing ≠ "" && existing ≠ internalId) then
    .conflict
  else .ok

def Store.exec (c : Command) (s : Store) : Store :=
  match c with
  | .putAll u hash => s.put u fun _ => hash
  | .putTelegramId u telegramId => s.put u ({ · with telegramId := telegramId })
  | .putWalletAddress u wallet => s.put u ({ · with walletAddress := wallet })
  | .setAuthTg t u => { s with authTg := Function.update s.authTg t (some u) }
  | .setAuthWallet w u => { s with authWallet := Function.update s.authWallet w (some u) }
  | .deleteAuthTg t => { s with authTg := Function.update s.authTg t none }
  | .deleteAuthWallet w => { s with authWallet := Function.update s.authWallet w none }
  | .switchWallet u canonical =>
      match s.switched u canonical with
      | .ok =>
          let current := ((s.users u).getD .empty).walletAddress
          { s.put u ({ · with walletAddress := canonical }) with
            authWallet :=
              Function.update (Function.update s.authWallet current none) canonical (some u) }
      | _ => s

abbrev Prog := Program Store Command

/-! ## UserIdentityRepository -/

/-- `fromHash`; a hash without a type of account is not one of an account. -/
def UserHash.parse (hash : UserHash) : Option UnifiedUser :=
  match hash.internalId, hash.authType with
  | some internalId, some authType => some
      { internalId := internalId
        authType := authType
        displayName := hash.displayName
        telegramId := hash.telegramId
        walletAddress := if isBlank hash.walletAddress then none else some hash.walletAddress
        avatarUrl := if isBlank hash.avatarUrl then none else some hash.avatarUrl }
  | _, _ => none

variable (cfg : Platform)

def normalizeWallet (wallet : Option String) : String :=
  match wallet with
  | none => ""
  | some w => cfg.toLowerCase (trim w)

def canonicalWalletRaw (wallet : Option String) : Except String String :=
  match wallet.filter (!isBlank ·) with
  | none => .error "Wallet address is required"
  | some w =>
      match cfg.toRaw (trim w) with
      | none => .error "Invalid wallet address"
      | some raw => .ok raw

def toHash (user : UnifiedUser) : UserHash where
  internalId := some user.internalId
  authType := some user.authType
  displayName := some (user.displayName.getD "")
  telegramId := user.telegramId
  walletAddress := normalizeWallet cfg user.walletAddress
  avatarUrl := user.avatarUrl.getD ""

/-- A missing account is not found; a hash that does not parse is an error. -/
def parsed (hash : Option UserHash) : Prog (Option UnifiedUser) :=
  match hash with
  | none => .done none
  | some hash =>
      match hash.parse with
      | none => .fail "Name is null"
      | some user => .done (some user)

def findById (internalId : String) : Prog (Option UnifiedUser) := do
  parsed (← ask (·.users internalId))

def findByTelegramId (telegramId : Int) : Prog (Option String) := ask (·.authTg telegramId)

def findByWalletAddress (walletAddress : String) : Prog (Option String) :=
  ask (·.authWallet (normalizeWallet cfg (some walletAddress)))

/-- The mapping of a Telegram account, in `save`. -/
def saveAuthTg (user : UnifiedUser) : Prog Unit :=
  match user.telegramId with
  | none => .done ()
  | some telegramId => write (.setAuthTg telegramId user.internalId)

/-- The mapping of a wallet, in `save`. -/
def saveAuthWallet (user : UnifiedUser) : Prog Unit :=
  match user.walletAddress.filter (!isBlank ·) with
  | none => .done ()
  | some wallet => write (.setAuthWallet (normalizeWallet cfg (some wallet)) user.internalId)

def save (user : UnifiedUser) : Prog Unit := do
  write (.putAll user.internalId (toHash cfg user))
  saveAuthTg user
  saveAuthWallet cfg user

def shortWalletDisplayName (wallet : String) : String :=
  if wallet.length ≤ 8 then wallet
  else String.ofList (wallet.toList.take 4) ++ "..."
    ++ String.ofList (wallet.toList.drop (wallet.length - 4))

/-- `uuid` is the random id of the account. -/
def createWalletUser (normalizedWallet uuid : String) : Prog UnifiedUser := do
  let user := ⟨uuid, .wallet, some (shortWalletDisplayName normalizedWallet), none,
    some normalizedWallet, none⟩
  save cfg user
  return user

def findOwner (owner : Option String) : Prog (Option UnifiedUser) :=
  match owner with
  | none => .done none
  | some internalId => findById internalId

def findOrCreateByWallet (walletAddress : Option String) (uuid : String) : Prog UnifiedUser := do
  let normalizedWallet := normalizeWallet cfg walletAddress
  if isBlank normalizedWallet then
    .fail "Wallet address is required"
  else
    match ← findOwner (← findByWalletAddress cfg normalizedWallet) with
    | some user => return user
    | none => createWalletUser cfg normalizedWallet uuid

def applyWalletLink (internalId normalized : String) : Prog Unit := do
  write (.setAuthWallet normalized internalId)
  write (.putWalletAddress internalId normalized)

def refreshWalletLink (internalId normalized : String) : Prog Unit := do
  write (.setAuthWallet normalized internalId)
  write (.putWalletAddress internalId normalized)

/-- What `linkWallet` falls back to. -/
def bindUnmappedWallet (internalId normalized : String) : Prog Unit := do
  let user ← found (← findById internalId) "User profile not found"
  if user.walletAddress.any fun existing =>
      !isBlank existing && normalizeWallet cfg (some existing) ≠ normalized then
    .fail "Another wallet is already linked; unlink it first"
  else
    applyWalletLink internalId normalized

/-- A refresh yields no value, so that the fallback is executed after it as well. -/
def linkWallet (internalId : String) (walletAddress : Option String) : Prog Unit := do
  let normalized := normalizeWallet cfg walletAddress
  if isBlank normalized then
    .fail "Wallet address is required"
  else if isBlank internalId then
    .fail "internalId is required"
  else
    match ← findByWalletAddress cfg normalized with
    | some ownerId =>
        if internalId = ownerId then
          refreshWalletLink internalId normalized
          bindUnmappedWallet cfg internalId normalized
        else .fail "Wallet already linked to another account"
    | none => bindUnmappedWallet cfg internalId normalized

def applyTelegramLink (internalId : String) (telegramId : Int) : Prog Unit := do
  write (.setAuthTg telegramId internalId)
  write (.putTelegramId internalId (some telegramId))

def refreshTelegramLink (internalId : String) (telegramId : Int) : Prog Unit := do
  write (.setAuthTg telegramId internalId)
  write (.putTelegramId internalId (some telegramId))

def absorbWalletLessTelegramStub (walletInternalId ownerId : String) (telegramId : Int) :
    Prog Unit := do
  let other ← found (← findById ownerId) "Telegram already linked to another account"
  if other.walletAddress.any (!isBlank ·) then
    .fail "Telegram already linked to another account"
  else
    applyTelegramLink walletInternalId telegramId

def resolveExistingTelegramOwner (internalId ownerId : String) (telegramId : Int) : Prog Unit :=
  if internalId = ownerId then refreshTelegramLink internalId telegramId
  else absorbWalletLessTelegramStub internalId ownerId telegramId

def bindUnmappedTelegram (internalId : String) (telegramId : Int) : Prog Unit := do
  let user ← found (← findById internalId) "User profile not found"
  match user.telegramId with
  | some existingTg =>
      if existingTg ≠ telegramId then
        .fail "Another Telegram account is already linked; unlink it first"
      else
        refreshTelegramLink internalId telegramId
  | none => applyTelegramLink internalId telegramId

def linkTelegram (internalId : String) (telegramId : Option Int) : Prog Unit :=
  match telegramId with
  | none => .fail "telegramId is required"
  | some telegramId =>
      if isBlank internalId then .fail "internalId is required"
      else do
        match ← findByTelegramId telegramId with
        | some ownerId => resolveExistingTelegramOwner internalId ownerId telegramId
        | none => bindUnmappedTelegram internalId telegramId

/-- What the caller makes of the reply of the script. -/
def switchReply : Switched → Prog Unit
  | .ok => .done ()
  | .conflict => .fail "Wallet already linked to another account"
  | .noWallet => .fail "No wallet linked"

def switchWallet (internalId : String) (walletAddress : Option String) : Prog Unit :=
  if isBlank internalId then .fail "internalId is required"
  else
    match canonicalWalletRaw cfg walletAddress with
    | .error error => .fail error
    | .ok canonical => do
        let result ← call (.switchWallet internalId canonical) (·.switched internalId canonical)
        switchReply result

def unlinkWallet (internalId : String) : Prog Unit := do
  let user ← found (← findById internalId) "User profile not found"
  demand user.telegramId.isSome "Cannot unlink the last sign-in method"
  let wallet ← found (user.walletAddress.filter (!isBlank ·)) "No wallet linked"
  write (.deleteAuthWallet (normalizeWallet cfg (some wallet)))
  write (.putWalletAddress internalId "")

def unlinkTelegram (internalId : String) : Prog Unit := do
  let user ← found (← findById internalId) "User profile not found"
  demand (user.walletAddress.any (!isBlank ·)) "Cannot unlink the last sign-in method"
  let tg ← found user.telegramId "No Telegram linked"
  write (.deleteAuthTg tg)
  write (.putTelegramId internalId none)

/-! ## StompIdentityAuthService -/

structure TelegramUser where
  id : Int
  firstName : Option String
  lastName : Option String
  username : Option String
  photoUrl : Option String

def TelegramUser.getDisplayName (user : TelegramUser) : String :=
  match user.firstName with
  | some firstName => match user.lastName with
    | some lastName => firstName ++ " " ++ lastName
    | none => firstName
  | none => match user.username with
    | some username => "@" ++ username
    | none => "User " ++ toString user.id

def fromTelegram (data : TelegramUser) : UnifiedUser where
  internalId := cfg.forTelegramId data.id
  authType := .telegram
  displayName := some data.getDisplayName
  telegramId := some data.id
  walletAddress := none
  avatarUrl := data.photoUrl

def mergeTelegramProfile (stored : UnifiedUser) (data : TelegramUser) : UnifiedUser :=
  { stored with
    displayName := some data.getDisplayName
    telegramId := some data.id
    avatarUrl := data.photoUrl <|> stored.avatarUrl }

/-- A sign-in: the profile is read, merged or derived, and saved back. -/
def resolveTelegramUser (data : TelegramUser) : Prog UnifiedUser := do
  let stored ← findOwner (← findByTelegramId data.id)
  let user := (stored.map (mergeTelegramProfile · data)).getD (fromTelegram cfg data)
  save cfg user
  return user

/-! ## Operations -/

inductive Op where
  | telegramSignIn (data : TelegramUser)
  | walletSignIn (walletAddress : Option String) (uuid : String)
  | linkWallet (internalId : String) (walletAddress : Option String)
  | linkTelegram (internalId : String) (telegramId : Option Int)
  | switchWallet (internalId : String) (walletAddress : Option String)
  | unlinkWallet (internalId : String)
  | unlinkTelegram (internalId : String)

def Op.program : Op → Prog Unit
  | .telegramSignIn data => resolveTelegramUser cfg data >>= fun _ => .done ()
  | .walletSignIn wallet uuid => findOrCreateByWallet cfg wallet uuid >>= fun _ => .done ()
  | .linkWallet u wallet => Identity.linkWallet cfg u wallet
  | .linkTelegram u telegramId => Identity.linkTelegram u telegramId
  | .switchWallet u wallet => Identity.switchWallet cfg u wallet
  | .unlinkWallet u => Identity.unlinkWallet cfg u
  | .unlinkTelegram u => Identity.unlinkTelegram u

/-! ## Stores and reads -/

section Store

variable {cfg} {s : Store} {u u' : String}

@[simp] theorem put_same (f : UserHash → UserHash) :
    (s.put u f).users u = some (f ((s.users u).getD .empty)) := by
  simp [Store.put]

theorem put_other (f : UserHash → UserHash) (h : u' ≠ u) :
    (s.put u f).users u' = s.users u' := by
  simp [Store.put, h]

@[simp] theorem put_authTg (f : UserHash → UserHash) : (s.put u f).authTg = s.authTg := rfl

@[simp] theorem put_authWallet (f : UserHash → UserHash) :
    (s.put u f).authWallet = s.authWallet := rfl

variable {Q : Option UnifiedUser → Store → Prop} {E : Store → Prop}

/-- What a read of an account needs. -/
theorem findById_wp (hnone : s.users u = none → Q none s)
    (hsome : ∀ r user, s.users u = some r → r.parse = some user → Q (some user) s)
    (herror : E s) : (findById u).wp Store.exec Q E s := by
  show (parsed (s.users u)).wp Store.exec Q E s
  cases hr : s.users u with
  | none => exact hnone hr
  | some r =>
      cases hp : r.parse with
      | none => simpa [parsed, hp] using herror
      | some user => simpa [parsed, hp] using hsome r user hr hp

end Store

end Identity

end BurnedChats
