import BurnedChats.Backend.Credentials
import BurnedChats.Lib.Index

/-!
# One owner of a wallet

Operations of different accounts overlap, command by command. A link checks the
mapping and writes mapping and record later, an unlink deletes the one and
blanks the other, and a Telegram sign-in writes back a profile that it has read
earlier, with the mapping of its wallet. Only a switch is one step.

`one_owner` says when a wallet still has one owner, which its mapping names, and
does not come back to an account that has left it: no command is executed on
grounds that another operation has removed since.
-/

namespace BurnedChats

namespace WalletOwner

open Program Identity
open Interleave (Conf Server Action exists_turn forall_turn forall_start)

/-! ## Operations and their history -/

/-- The wallet in the record of an account, empty if there is none. -/
def wallets (s : Identity.Store) (u : String) : String := (s.hash u).walletAddress

/-- An operation and its number. -/
structure Request where
  id : Nat
  op : Op

variable (cfg : Platform)

def Request.program (r : Request) : Prog Unit := r.op.program cfg

abbrev WalletCall := Call Request Identity.Store Identity.Command Unit

/-- `begun` has the numbers of the operations that have taken a step; `deleted`
has the wallet whose mapping an unlink has deleted; `linked` has the wallet that
an account has reported to be linked or switched to; `left` has, for an account
and a wallet it has unlinked or switched away from, the operations that had begun
by then, until a later one maps the wallet to the account again. -/
structure Log where
  begun : List Nat
  deleted : Nat → Option String
  linked : String → Option String
  left : String → String → Option (List Nat)

/-- The account that the command maps a wallet to, and the wallet. -/
def maps (s : Identity.Store) : Identity.Command → Option (String × String)
  | .setAuthWallet w u => some (u, w)
  | .switchWallet u canonical => if s.switched u canonical = .ok then some (u, canonical) else none
  | _ => none

/-- The wallet is mapped to the account by the operation `id`. -/
def Log.map (id : Nat) (l : Log) (u w : String) : Log :=
  { l with
    left := fun u' w' =>
      if u' = u ∧ w' = w then (l.left u w).filter (·.contains id) else l.left u' w' }

/-- The account has left the wallet. -/
def Log.leave (l : Log) (u w : String) : Log :=
  { l with left := fun u' w' => if u' = u ∧ w' = w then some l.begun else l.left u' w' }

/-- A command of an operation. -/
def Log.note (r : Request) (command : Identity.Command) (s : Identity.Store) (l : Log) : Log :=
  match command with
  | .deleteAuthWallet w => { l with deleted := Function.update l.deleted r.id (some w) }
  | _ => (maps s command).elim l fun m => l.map r.id m.1 m.2

def Log.link (l : Log) (u : String) (wallet : Option String) : Log :=
  { l with linked := Function.update l.linked u wallet }

/-- The account has switched from a wallet to another one. -/
def Log.switch (l : Log) (u current canonical : String) : Log :=
  if current = canonical then l.link u (some canonical)
  else (l.link u (some canonical)).leave u current

/-- The operation completes with the command. -/
def Log.report (r : Request) (command : Identity.Command) (s : Identity.Store) (l : Log) : Log :=
  match r.op, command with
  | .linkWallet .., .putWalletAddress u w => l.link u (some w)
  | .unlinkWallet .., .putWalletAddress u _ =>
      (l.deleted r.id).elim (l.link u none) ((l.link u none).leave u)
  | .switchWallet .., .switchWallet u canonical =>
      if s.switched u canonical = .ok then l.switch u (wallets s u) canonical else l
  | _, _ => l

def record (p : WalletCall) (s : Identity.Store) (l : Log) : Log :=
  match p with
  | .arriving r => { l with begun := r.id :: l.begun }
  | .running r (.exec command next) =>
      if (Call.running r (next s)).completed then (l.note r command s).report r command s
      else l.note r command s
  | .running .. => l

def server : Server (Identity.Store × Log) WalletCall Empty :=
  (Call.server Store.exec (Request.program cfg) fun _ _ => none).recording record

abbrev State := Conf (Identity.Store × Log) WalletCall

/-- At the start an account has linked the wallet that is in its record. -/
def start (s : Identity.Store) : State :=
  ⟨(s, ⟨[], fun _ => none, fun u => some (wallets s u), fun _ _ => none⟩), []⟩

/-! ## What is asked -/

/-- Wallets in records are normal, and a record has its own key. -/
structure Clean (s : Identity.Store) : Prop where
  normal : ∀ u r, s.users u = some r → r.walletAddress = "" ∨ Normal cfg r.walletAddress
  key : ∀ u r id, s.users u = some r → r.internalId = some id → id = u

/-- Besides, wallets in records are mapped to their accounts. -/
structure Opened (s : Identity.Store) : Prop extends Clean cfg s where
  mapped : ∀ u, wallets s u ≠ "" → s.authWallet (wallets s u) = some u

/-- The account has reported the wallet as linked, has not left it since, and has
it in its record. -/
structure Holds (c : State) (u w : String) : Prop where
  named : w ≠ ""
  linked : c.store.2.linked u = some w
  wallet : wallets c.store.1 u = w

structure Owned (c : State) : Prop where
  one : ∀ u v w, Holds c u w → Holds c v w → u = v
  mapped : (∀ p ∈ c.pool, p.isOver = true) → ∀ u w, Holds c u w →
    c.store.1.authWallet w = some u
  /-- No operation that had begun when the account left the wallet maps it back. -/
  gone : ∀ u w ids, c.store.2.left u w = some ids → ∀ p ∈ c.pool, p.op.id ∈ ids →
    ∀ r command, p.command? = some (r, command) → maps c.store.1 command ≠ some (u, w)

/-! ## The condition -/

/-- The operation links or switches the account to the wallet. -/
def Targets (u w : String) : Op → Prop
  | .linkWallet u' wallet => u' = u ∧ normalizeWallet cfg wallet = w
  | .switchWallet u' wallet => u' = u ∧ canonicalWalletRaw cfg wallet = .ok w
  | _ => False

def setsMapping (u w : String) (c : Identity.Command) : Prop := c = .setAuthWallet w u

/-- No other operation under way links the account to the wallet, and no sign-in
that has read the wallet in its profile has still to write the mapping. -/
def Clear (c : State) (id : Nat) (u w : String) : Prop :=
  ∀ p ∈ c.pool, p.op.id ≠ id → p.op.id ∈ c.store.2.begun → p.isOver = false →
    ¬ Targets cfg u w p.op.op ∧ ¬ p.Owes (Request.program cfg) (setsMapping u w)

/-- No other account has the wallet in its record. -/
def Unheld (s : Identity.Store) (u w : String) : Prop :=
  ∀ v, v ≠ u → wallets s v ≠ w

/-- A wallet is mapped to an account while no other has it in its record; a link
writes the record while the mapping is its own; an unlink does not delete a
mapping of another account; a sign-in writes back no wallet but the one in the
record; and an account leaves a wallet while nothing brings it back. -/
def Timely (c : State) (r : Request) (command : Identity.Command) : Prop :=
  match r.op, command with
  | _, .setAuthWallet w u => Unheld c.store.1 u w
  | .linkWallet .., .putWalletAddress u w => c.store.1.authWallet w = some u
  | .unlinkWallet u, .deleteAuthWallet w => ∀ v, c.store.1.authWallet w = some v → v = u
  | .unlinkWallet .., .putWalletAddress u _ =>
      ∀ w, c.store.2.deleted r.id = some w → Clear cfg c r.id u w
  | _, .putAll u hash => hash.walletAddress = "" ∨
      hash.walletAddress = wallets c.store.1 u
  | _, .switchWallet u canonical => c.store.1.switched u canonical = .ok →
      Unheld c.store.1 u canonical ∧ (wallets c.store.1 u ≠ canonical →
        Clear cfg c r.id u (wallets c.store.1 u))
  | _, _ => True

def scope : Op → Bool
  | .linkWallet .. | .switchWallet .. | .unlinkWallet _ | .telegramSignIn _ => true
  | _ => false

/-- Operations are numbered in the order in which they arrive. -/
def Numbered (c : State) : Action WalletCall Empty → Prop
  | .start p => p.op.id = c.pool.length ∧ scope p.op.op = true
  | _ => True

def Orderly (c : State) (a : Action WalletCall Empty) : Prop :=
  Numbered c a ∧ ∀ i p r command, a = .turn i → c.pool[i]? = some p →
    p.command? = some (r, command) → Timely cfg c r command

/-! ## What an operation executes -/

section Programs

/-- A link, once it has read the mapping. -/
def linkFound (u w : String) : Option String → Prog Unit
  | some owner =>
      if u = owner then
        refreshWalletLink u w >>= fun _ => bindUnmappedWallet cfg u w
      else .fail "Wallet already linked to another account"
  | none => bindUnmappedWallet cfg u w

/-- A link to a wallet and an account that are named. -/
def linkAsked (u w : String) : Prog Unit :=
  .read fun s => linkFound cfg u w (s.authWallet (normalizeWallet cfg (some w)))

theorem linkWallet_eq (id : Nat) (u : String) (wallet : Option String) :
    Request.program cfg ⟨id, .linkWallet u wallet⟩ =
      if isBlank (normalizeWallet cfg wallet) then .fail "Wallet address is required"
      else if isBlank u then .fail "internalId is required"
      else linkAsked cfg u (normalizeWallet cfg wallet) := by
  simp only [Request.program, Op.program, linkWallet, findByWalletAddress, ask_bind, linkAsked]
  refine ite_congr rfl (fun _ => rfl) fun _ => ite_congr rfl (fun _ => rfl) fun _ => ?_
  refine congrArg Program.read (funext fun s => ?_)
  cases s.authWallet (normalizeWallet cfg (some (normalizeWallet cfg wallet))) with
  | none => rfl
  | some owner => rfl

/-- A sign-in, once it knows the profile to save. -/
def saving (user : UnifiedUser) : Prog Unit := save cfg user >>= fun _ => .done ()

def savingTg (user : UnifiedUser) : Prog Unit :=
  saveAuthTg user >>= fun _ => saveAuthWallet cfg user >>= fun _ => .done ()

def savingWallet (user : UnifiedUser) : Prog Unit := saveAuthWallet cfg user >>= fun _ => .done ()

theorem saving_eq (user : UnifiedUser) :
    saving cfg user = .exec (.putAll user.internalId (toHash cfg user)) fun _ =>
      savingTg cfg user := by
  simp only [saving, save, write_bind, exec_bind, savingTg, saveAuthTg]
  refine congrArg (Program.exec _) (funext fun _ => ?_)
  cases user.telegramId with
  | none => rfl
  | some t => rfl

/-- A sign-in, once it has read the profile. -/
def profiled (data : TelegramUser) (stored : Option UnifiedUser) : Prog Unit :=
  saving cfg ((stored.map (mergeTelegramProfile · data)).getD (fromTelegram cfg data))

def signFound (data : TelegramUser) : Option String → Prog Unit
  | some x => .read fun s => parsed (s.users x) >>= profiled cfg data
  | none => profiled cfg data none

theorem telegramSignIn_eq (id : Nat) (data : TelegramUser) :
    Request.program cfg ⟨id, .telegramSignIn data⟩
      = .read fun s => signFound cfg data (s.authTg data.id) := by
  have hsave : ∀ user : UnifiedUser,
      ((save cfg user >>= fun _ => .done user) >>= fun _ => .done ()) = saving cfg user := by
    intro user
    simp only [saving, save, saveAuthTg, saveAuthWallet, write_bind, exec_bind]
    refine congrArg (Program.exec _) (funext fun _ => ?_)
    cases user.telegramId with
    | none =>
        cases user.walletAddress.filter (!isBlank ·) with
        | none => rfl
        | some w => rfl
    | some t =>
        cases user.walletAddress.filter (!isBlank ·) with
        | none => rfl
        | some w => rfl
  simp only [Request.program, Op.program, resolveTelegramUser, findByTelegramId, ask_bind,
    read_bind]
  refine congrArg Program.read (funext fun s => ?_)
  cases s.authTg data.id with
  | none => exact hsave _
  | some x =>
      simp only [findOwner, findById, ask_bind, read_bind, signFound]
      refine congrArg Program.read (funext fun s => ?_)
      cases s.users x with
      | none => exact hsave _
      | some r =>
          cases hp : r.parse with
          | none => simp [parsed, hp]
          | some user =>
              simp only [parsed, hp, done_bind]
              exact hsave _

/-- The commands of an operation. -/
def Issues (r : Request) (c : Identity.Command) : Prop :=
  match r.op with
  | .linkWallet u wallet => Normal cfg (normalizeWallet cfg wallet) ∧
      (c = .setAuthWallet (normalizeWallet cfg wallet) u
        ∨ c = .putWalletAddress u (normalizeWallet cfg wallet))
  | .switchWallet u wallet => ∃ canonical, canonicalWalletRaw cfg wallet = .ok canonical
      ∧ Normal cfg canonical ∧ c = .switchWallet u canonical
  | .unlinkWallet u => (∃ w, Normal cfg w ∧ c = .deleteAuthWallet w) ∨ c = .putWalletAddress u ""
  | .telegramSignIn _ =>
      (∃ u hash, c = .putAll u hash ∧ hash.internalId = some u
        ∧ (hash.walletAddress = "" ∨ Normal cfg hash.walletAddress))
      ∨ (∃ t u, c = .setAuthTg t u) ∨ ∃ w u, c = .setAuthWallet w u
  | _ => False

variable {cfg} {s : Identity.Store} {u : String} {r : UserHash} {user : UnifiedUser}

/-- What a read of an account yields. -/
theorem Clean.parse (h : Clean cfg s) (hr : s.users u = some r) (hp : r.parse = some user) :
    user.internalId = u ∧ ∀ w, user.walletAddress = some w → Normal cfg w ∧ r.walletAddress = w := by
  obtain ⟨hid, -, hw⟩ := parse_eq_some hp
  refine ⟨h.key u r _ hr hid, fun w hsome => ?_⟩
  rw [hw] at hsome
  split at hsome
  · cases hsome
  · rename_i hblank
    obtain rfl := Option.some.inj hsome
    refine ⟨(h.normal u r hr).resolve_left fun hempty => hblank ?_, rfl⟩
    rw [hempty]
    rfl

theorem findById_ensures {φ : Identity.Command → Prop} (u : String) :
    (findById u).Ensures (Clean cfg) φ fun stored => ∀ user, stored = some user →
      user.internalId = u ∧ ∀ w, user.walletAddress = some w → Normal cfg w := by
  intro s hs
  show (parsed (s.users u)).Ensures (Clean cfg) φ _
  cases hr : s.users u with
  | none => exact fun user h => (by cases h)
  | some r =>
      cases hp : r.parse with
      | none => simp [parsed, hp]
      | some user =>
          simp only [parsed, hp, ensures_done]
          rintro _ ⟨rfl⟩
          obtain ⟨hid, hw⟩ := hs.parse hr hp
          exact ⟨hid, fun w hsome => (hw w hsome).1⟩

theorem normal_of_not_blank (hcfg : cfg.Lawful) {wallet : Option String}
    (h : isBlank (normalizeWallet cfg wallet) = false) :
    Normal cfg (normalizeWallet cfg wallet) := by
  refine ⟨h, ?_⟩
  cases wallet with
  | none => cases h
  | some w => exact hcfg.normal w

theorem save_issues {id : Nat} {data : TelegramUser}
    (hw : ∀ w, user.walletAddress = some w → Normal cfg w) :
    (save cfg user).Ensures (Clean cfg) (Issues cfg ⟨id, .telegramSignIn data⟩) fun _ => True := by
  simp only [save, saveAuthTg, saveAuthWallet, write_bind, ensures_exec]
  refine ⟨.inl ⟨_, _, rfl, rfl, ?_⟩, fun s _ => ?_⟩
  · show normalizeWallet cfg user.walletAddress = "" ∨
      Normal cfg (normalizeWallet cfg user.walletAddress)
    cases hu : user.walletAddress with
    | none => exact .inl rfl
    | some w =>
        rw [(hw w hu).same]
        exact .inr (hw w hu)
  · have hwallet : (saveAuthWallet cfg user).Ensures (Clean cfg)
        (Issues cfg ⟨id, .telegramSignIn data⟩) fun _ => True := by
      unfold saveAuthWallet
      cases user.walletAddress.filter (!isBlank ·) with
      | none => trivial
      | some w => exact ⟨.inr (.inr ⟨_, _, rfl⟩), fun _ _ => trivial⟩
    cases user.telegramId with
    | none => exact hwallet
    | some t => exact ⟨.inr (.inl ⟨t, _, rfl⟩), fun _ _ => hwallet⟩

theorem program_issues (hcfg : cfg.Lawful) {r : Request} (hscope : scope r.op = true) :
    (r.program cfg).Ensures (Clean cfg) (Issues cfg r) fun _ => True := by
  obtain ⟨id, op⟩ := r
  cases op with
  | linkWallet u wallet =>
      simp only [linkWallet_eq, ensures_ite, ensures_fail]
      refine ⟨fun _ => trivial, fun hblank => ⟨fun _ => trivial, fun _ s _ => ?_⟩⟩
      have hnormal := normal_of_not_blank hcfg (by simpa using hblank)
      have hset : Issues cfg ⟨id, .linkWallet u wallet⟩
          (.setAuthWallet (normalizeWallet cfg wallet) u) := ⟨hnormal, .inl rfl⟩
      have hput : Issues cfg ⟨id, .linkWallet u wallet⟩
          (.putWalletAddress u (normalizeWallet cfg wallet)) := ⟨hnormal, .inr rfl⟩
      have hbind : (bindUnmappedWallet cfg u (normalizeWallet cfg wallet)).Ensures (Clean cfg)
          (Issues cfg ⟨id, .linkWallet u wallet⟩) fun _ => True := by
        simp only [bindUnmappedWallet, ensures_bind]
        refine (findById_ensures u).mono (fun _ h => h) (fun _ h => h) fun stored _ => ?_
        simp only [ensures_found, ensures_ite, ensures_fail]
        exact fun _ _ => ⟨fun _ => trivial, fun _ => ⟨hset, fun _ _ => ⟨hput, fun _ _ => trivial⟩⟩⟩
      dsimp only
      cases s.authWallet (normalizeWallet cfg (some (normalizeWallet cfg wallet))) with
      | none => exact hbind
      | some owner =>
          simp only [linkFound, ensures_ite, ensures_fail]
          exact ⟨fun _ => ⟨hset, fun _ _ => ⟨hput, fun _ _ => hbind⟩⟩, fun _ => trivial⟩
  | switchWallet u wallet =>
      simp only [Request.program, Op.program, Identity.switchWallet, ensures_ite, ensures_fail]
      refine ⟨fun _ => trivial, fun _ => ?_⟩
      cases hc : canonicalWalletRaw cfg wallet with
      | error error => trivial
      | ok canonical =>
          have hnormal : Normal cfg canonical := by
            unfold canonicalWalletRaw at hc
            split at hc
            · cases hc
            · split at hc
              · cases hc
              · rename_i raw hraw
                obtain rfl := Except.ok.inj hc
                exact ⟨(hcfg.raw _ _ hraw).1, (hcfg.raw _ _ hraw).2⟩
          refine ⟨⟨canonical, hc, hnormal, rfl⟩, fun s _ => ?_⟩
          show (switchReply (s.switched u canonical)).Ensures _ _ _
          cases s.switched u canonical with
          | _ => trivial
  | unlinkWallet u =>
      simp only [Request.program, Op.program, Identity.unlinkWallet, ensures_bind]
      refine (findById_ensures u).mono (fun _ h => h) (fun _ h => h) fun stored hstored => ?_
      simp only [ensures_found, ensures_demand, ensures_write]
      intro user huser _ w hw
      obtain ⟨hsome, -⟩ := Option.filter_eq_some_iff.mp hw
      have hnormal := (hstored user huser).2 w hsome
      exact ⟨.inl ⟨_, hnormal.same.symm ▸ hnormal, rfl⟩, fun _ _ =>
        ⟨.inr rfl, fun _ _ => trivial⟩⟩
  | telegramSignIn data =>
      rw [telegramSignIn_eq]
      intro s _
      have hprofiled : ∀ stored : Option UnifiedUser, (∀ user, stored = some user →
          ∀ w, user.walletAddress = some w → Normal cfg w) → (profiled cfg data stored).Ensures
            (Clean cfg) (Issues cfg ⟨id, .telegramSignIn data⟩) fun _ => True := by
        intro stored hstored
        refine (ensures_bind ..).mpr (save_issues fun w hw => ?_)
        cases stored with
        | none => cases hw
        | some user => exact hstored user rfl w hw
      dsimp only
      cases s.authTg data.id with
      | none => exact hprofiled none fun user h => (by cases h)
      | some x =>
          exact (ensures_bind (findById x) _).mpr ((findById_ensures x).mono (fun _ h => h)
            (fun _ h => h) fun stored h => hprofiled stored fun user hs => (h user hs).2)
  | _ => cases hscope

def clears (u : String) (c : Identity.Command) : Prop := c = .putWalletAddress u ""

/-- An unlink that has deleted the mapping blanks the record. -/
theorem unlinkWallet_follows (id : Nat) (u : String) :
    (Request.program cfg ⟨id, .unlinkWallet u⟩).Follows (fun c => ∃ w, c = .deleteAuthWallet w)
      (clears u) := by
  have hfind : (findById u).All fun c => ¬ ∃ w, c = Command.deleteAuthWallet w := by
    intro s _
    show (parsed (s.users u)).Ensures _ _ _
    cases s.users u with
    | none => trivial
    | some r => cases hp : r.parse <;> simp [parsed, hp]
  refine (follows_of_all hfind).bind fun stored => ?_
  cases stored with
  | none => trivial
  | some user =>
      simp only [found, done_bind, demand]
      split
      · cases user.walletAddress.filter (!isBlank ·) with
        | none => trivial
        | some w =>
            refine fun _ => ⟨fun _ => .inl rfl, fun _ => ⟨?_, trivial⟩⟩
            rintro ⟨_, hc⟩
            cases hc
      · trivial

/-- A link writes the mapping first. -/
theorem linkWallet_first (id : Nat) (u : String) (wallet : Option String) :
    (Request.program cfg ⟨id, .linkWallet u wallet⟩).First fun c =>
      ∃ w, c = .setAuthWallet w u := by
  have hbind : ∀ w, (bindUnmappedWallet cfg u w).First fun c =>
      ∃ w, c = Command.setAuthWallet w u := by
    intro w s
    show (parsed (s.users u) >>= _).First _
    cases s.users u with
    | none => trivial
    | some r =>
        cases hp : r.parse with
        | none => simp [parsed, hp, First]
        | some user =>
            simp only [parsed, hp, done_bind, found]
            split
            · trivial
            · exact ⟨w, rfl⟩
  rw [linkWallet_eq]
  split
  · trivial
  · split
    · trivial
    · intro s
      dsimp only
      cases s.authWallet (normalizeWallet cfg (some (normalizeWallet cfg wallet))) with
      | none => exact hbind _
      | some owner =>
          simp only [linkFound]
          split
          · exact ⟨_, rfl⟩
          · trivial

/-! ### A sign-in and the mapping of the profile -/

variable (cfg) in
/-- A store in which the account does not have the wallet. -/
def Without (u w : String) (s : Identity.Store) : Prop :=
  Clean cfg s ∧ (s.hash u).walletAddress ≠ w

variable (cfg) in
/-- While the account does not have the wallet, it is not mapped to it. -/
def Harmless (u w : String) (p : Prog Unit) : Prop :=
  p.Ensures (Without cfg u w) (fun c => ¬ setsMapping u w c) fun _ => True

variable (cfg) in
/-- The profile has the wallet. -/
def Saves (user : UnifiedUser) (u w : String) : Prop :=
  user.internalId = u ∧ (user.walletAddress.filter (!isBlank ·)).map (normalizeWallet cfg <| some ·)
    = some w

theorem saving_all {u w : String} (h : ¬ Saves cfg user u w) :
    (saving cfg user).All fun c => ¬ setsMapping u w c := by
  have hwallet : (savingWallet cfg user).All fun c => ¬ setsMapping u w c := by
    unfold savingWallet saveAuthWallet
    unfold Saves at h
    cases hw : user.walletAddress.filter (!isBlank ·) with
    | none => trivial
    | some w' =>
        refine ⟨fun hset => h ?_, fun _ _ => trivial⟩
        obtain ⟨rfl, rfl⟩ := Command.setAuthWallet.inj hset
        exact ⟨rfl, by rw [hw]; rfl⟩
  rw [saving_eq]
  refine ⟨fun hset => (by cases hset), fun _ _ => ?_⟩
  unfold savingTg saveAuthTg
  cases user.telegramId with
  | none => exact hwallet
  | some t => exact ⟨fun hset => (by cases hset), fun _ _ => hwallet⟩

theorem saving_owes {u w : String} (h : Saves cfg user u w) :
    (savingWallet cfg user).Owes (setsMapping u w) := by
  obtain ⟨rfl, hw⟩ := h
  obtain ⟨w', hw', rfl⟩ := Option.map_eq_some_iff.mp hw
  unfold savingWallet saveAuthWallet
  rw [hw']
  exact .inl rfl

/-- A sign-in that has read a profile either owes the mapping or does not write it. -/
theorem saving_throughout (user : UnifiedUser) (u w : String) :
    (saving cfg user).Throughout (Clean cfg) fun q =>
      q.Owes (setsMapping u w) ∨ Harmless cfg u w q := by
  by_cases h : Saves cfg user u w
  · have howes := saving_owes h
    have hdone : ∀ q : Prog Unit, q.isOver = true → q.Throughout (Clean cfg) fun q =>
        q.Owes (setsMapping u w) ∨ Harmless cfg u w q := by
      intro q hq
      cases q with
      | done a => exact .inr trivial
      | fail error => exact .inr trivial
      | _ => cases hq
    have hwallet : (savingWallet cfg user).Throughout (Clean cfg) fun q =>
        q.Owes (setsMapping u w) ∨ Harmless cfg u w q := by
      obtain ⟨w', hw', -⟩ := Option.map_eq_some_iff.mp h.2
      unfold savingWallet saveAuthWallet at howes ⊢
      rw [hw'] at howes ⊢
      exact ⟨.inl howes, fun _ _ => hdone _ rfl⟩
    rw [saving_eq]
    refine ⟨.inl (.inr fun _ => ?_), fun _ _ => ?_⟩
    · unfold savingTg saveAuthTg
      cases user.telegramId with
      | none => exact howes
      | some t => exact .inr fun _ => howes
    · unfold savingTg saveAuthTg
      cases user.telegramId with
      | none => exact hwallet
      | some t => exact ⟨.inl (.inr fun _ => howes), fun _ _ => hwallet⟩
  · exact ((saving_all h).mono (fun _ _ => trivial) (fun _ h => h) fun _ h => h).throughout.mono
      fun q hq => .inr (hq.mono (fun _ h => h.1) (fun _ h => h) fun _ h => h)

theorem merged_harmless {x u w : String} {data : TelegramUser} (hs : Without cfg u w s)
    (hr : s.users x = some r) (hp : r.parse = some user) :
    ¬ Saves cfg (mergeTelegramProfile user data) u w := by
  rintro ⟨rfl, hw⟩
  obtain ⟨w', hw', hsame⟩ := Option.map_eq_some_iff.mp hw
  obtain ⟨hid, hwallet⟩ := hs.1.parse hr hp
  obtain ⟨hnormal, hrw⟩ := hwallet w' (Option.filter_eq_some_iff.mp hw').1
  refine hs.2 ?_
  show (s.hash user.internalId).walletAddress = w
  rw [hid, hash_eq hr, hrw, ← hsame, hnormal.same]

theorem derived_harmless (data : TelegramUser) (u w : String) :
    ¬ Saves cfg (fromTelegram cfg data) u w := by
  rintro ⟨-, hw⟩
  cases hw

theorem harmless_of_not_saves {u w : String} (h : ¬ Saves cfg user u w) :
    Harmless cfg u w (saving cfg user) :=
  (saving_all h).mono (fun _ _ => trivial) (fun _ h => h) fun _ h => h

theorem signFound_harmless (data : TelegramUser) (owner : Option String) (u w : String) :
    Harmless cfg u w (signFound cfg data owner) := by
  cases owner with
  | none => exact harmless_of_not_saves (derived_harmless data u w)
  | some x =>
      intro s hs
      dsimp only
      cases hr : s.users x with
      | none => exact harmless_of_not_saves (derived_harmless data u w)
      | some r =>
          cases hp : r.parse with
          | none => simp [parsed, hp]
          | some user =>
              simp only [parsed, hp, done_bind]
              exact harmless_of_not_saves (merged_harmless hs hr hp)

theorem telegramSignIn_harmless (id : Nat) (data : TelegramUser) (u w : String) :
    Harmless cfg u w (Request.program cfg ⟨id, .telegramSignIn data⟩) := by
  rw [telegramSignIn_eq]
  exact fun s _ => signFound_harmless data _ u w

theorem telegramSignIn_throughout (id : Nat) (data : TelegramUser) (u w : String) :
    (Request.program cfg ⟨id, .telegramSignIn data⟩).Throughout (Clean cfg) fun q =>
      q.Owes (setsMapping u w) ∨ Harmless cfg u w q := by
  have hharmless : Harmless cfg u w (Request.program cfg ⟨id, .telegramSignIn data⟩) :=
    telegramSignIn_harmless id data u w
  rw [telegramSignIn_eq] at hharmless ⊢
  refine ⟨.inr hharmless, fun s _ => ?_⟩
  dsimp only
  cases s.authTg data.id with
  | none => exact saving_throughout _ u w
  | some x =>
      refine ⟨.inr (signFound_harmless data (some x) u w), fun s _ => ?_⟩
      dsimp only
      cases s.users x with
      | none => exact saving_throughout _ u w
      | some r =>
          cases hp : r.parse with
          | none =>
              simp only [parsed, hp, fail_bind]
              exact .inr trivial
          | some user =>
              simp only [parsed, hp, done_bind]
              exact saving_throughout _ u w

variable (cfg) in
/-- What is left of an operation. -/
structure Formed (p : WalletCall) : Prop where
  issues : (p.rest (Request.program cfg)).Ensures (Clean cfg) (Issues cfg p.op) fun _ => True
  clears : ∀ u, p.op.op = .unlinkWallet u →
    p.Follows (Request.program cfg) (fun c => ∃ w, c = .deleteAuthWallet w) (clears u)
  signs : ∀ data, p.op.op = .telegramSignIn data → ∀ u w,
    (p.rest (Request.program cfg)).Throughout (Clean cfg) fun q =>
      q.Owes (setsMapping u w) ∨ Harmless cfg u w q

theorem formed_arriving (hcfg : cfg.Lawful) {r : Request} (h : scope r.op = true) :
    Formed cfg (.arriving r) := by
  obtain ⟨id, op⟩ := r
  refine ⟨program_issues hcfg h, ?_, ?_⟩
  · rintro u ⟨rfl⟩
    exact unlinkWallet_follows id u
  · rintro data ⟨rfl⟩
    exact telegramSignIn_throughout id data

/-- The server without the log. -/
abbrev plain (cfg : Platform) : Server Identity.Store WalletCall Empty :=
  Call.server Store.exec (Request.program cfg) fun _ _ => none

variable {p p' : WalletCall} {s' : Identity.Store}

theorem Formed.step (h : Formed cfg p) (hs : Clean cfg s)
    (hstep : (plain cfg).step p s = some (s', p')) : Formed cfg p' := by
  have hop := (Call.step_cases hstep).1
  refine ⟨?_, fun u hu => ?_, fun data hd u w => ?_⟩
  · rw [hop]
    rcases Call.rest_step hstep with ⟨-, hr⟩ | hr
    · exact hr ▸ h.issues
    · exact Ensures.step h.issues hs hr
  · exact (h.clears u (hop ▸ hu)).step hstep
  · have hthrough := h.signs data (hop ▸ hd) u w
    rcases Call.rest_step hstep with ⟨-, hr⟩ | hr
    · exact hr ▸ hthrough
    · exact hthrough.step hs hr

/-- No mapping of the empty text is deleted. -/
theorem Issues.deleted_ne {r : Request} {w : String} (h : Issues cfg r (.deleteAuthWallet w)) :
    w ≠ "" := by
  obtain ⟨id, op⟩ := r
  cases op with
  | linkWallet u wallet =>
      obtain ⟨-, h | h⟩ := h
      · cases h
      · cases h
  | switchWallet u wallet =>
      obtain ⟨_, -, -, h⟩ := h
      cases h
  | unlinkWallet u =>
      obtain ⟨w', hnormal, h⟩ | h := h
      · obtain rfl := Command.deleteAuthWallet.inj h
        exact hnormal.ne_empty
      · cases h
  | telegramSignIn data =>
      obtain ⟨_, _, h, -⟩ | ⟨_, _, h⟩ | ⟨_, _, h⟩ := h
      · cases h
      · cases h
      · cases h
  | _ => cases h

theorem Formed.command (h : Formed cfg p) {r : Request} {c : Identity.Command}
    (hc : p.command? = some (r, c)) : Issues cfg r c := by
  obtain ⟨next, rfl⟩ := Call.command?_eq_some hc
  exact h.issues.1

end Programs

/-! ## What a command does to the store -/

section Stores

variable {cfg} {s : Identity.Store} {u w : String}

theorem wallets_put (f : UserHash → UserHash) :
    wallets (s.put u f) = Function.update (wallets s) u (f (s.hash u)).walletAddress := by
  funext v
  by_cases hv : v = u
  · subst hv
    simp [wallets, Store.hash]
  · simp [wallets, Store.hash, put_other f hv, Function.update_of_ne hv]

theorem wallets_putWalletAddress :
    wallets (Store.exec (.putWalletAddress u w) s) = Function.update (wallets s) u w :=
  wallets_put fun r => { r with walletAddress := w }

theorem wallets_putAll (hash : UserHash) :
    wallets (Store.exec (.putAll u hash) s) = Function.update (wallets s) u hash.walletAddress :=
  wallets_put fun _ => hash

theorem Clean.put (h : Clean cfg s) {f : UserHash → UserHash}
    (hw : (f (s.hash u)).walletAddress = "" ∨ Normal cfg (f (s.hash u)).walletAddress)
    (hk : ∀ id, (f (s.hash u)).internalId = some id → id = u) : Clean cfg (s.put u f) := by
  refine ⟨fun v r hr => ?_, fun v r id hr hid => ?_⟩
  · by_cases hv : v = u
    · subst hv
      rw [put_same] at hr
      exact Option.some.inj hr ▸ hw
    · rw [put_other f hv] at hr
      exact h.normal v r hr
  · by_cases hv : v = u
    · subst hv
      rw [put_same] at hr
      exact hk id (Option.some.inj hr ▸ hid)
    · rw [put_other f hv] at hr
      exact h.key v r id hr hid

theorem Clean.key_hash (h : Clean cfg s) {id : String} (hid : (s.hash u).internalId = some id) :
    id = u := by
  unfold Store.hash at hid
  cases hr : s.users u with
  | none =>
      rw [hr] at hid
      cases hid
  | some r =>
      rw [hr] at hid
      exact h.key u r id hr hid

theorem exec_switch_ok (h : s.switched u w = .ok) :
    Store.exec (.switchWallet u w) s = { s.put u ({ · with walletAddress := w }) with
      authWallet :=
        Function.update (Function.update s.authWallet (wallets s u) none) w (some u) } := by
  unfold Store.exec
  dsimp only
  split
  · rfl
  · contradiction

theorem Clean.wallet (h : Clean cfg s) (hw : w = "" ∨ Normal cfg w) :
    Clean cfg (s.put u ({ · with walletAddress := w })) :=
  h.put (f := ({ · with walletAddress := w })) hw fun _ hid => h.key_hash hid

/-- What a switch does. -/
theorem exec_switch (h : s.switched u w = .ok) :
    wallets s u ≠ ""
      ∧ wallets (Store.exec (.switchWallet u w) s) = Function.update (wallets s) u w
      ∧ (Store.exec (.switchWallet u w) s).authWallet
        = Function.update (Function.update s.authWallet (wallets s u) none) w (some u) := by
  rw [exec_switch_ok h]
  refine ⟨fun hempty => ?_, wallets_put fun r => { r with walletAddress := w }, rfl⟩
  have hno : s.switched u w = .noWallet := if_pos hempty
  rw [h] at hno
  cases hno

theorem exec_switch_failed (h : s.switched u w ≠ .ok) : Store.exec (.switchWallet u w) s = s := by
  unfold Store.exec
  dsimp only
  split
  · contradiction
  · rfl

theorem Clean.exec (h : Clean cfg s) {r : Request} {c : Identity.Command}
    (hi : Issues cfg r c) : Clean cfg (Store.exec c s) := by
  have hsame : ∀ s', s'.users = s.users → Clean cfg s' := fun s' hs' =>
    ⟨fun u r hr => h.normal u r (hs' ▸ hr), fun u r id hr => h.key u r id (hs' ▸ hr)⟩
  obtain ⟨id, op⟩ := r
  cases op with
  | linkWallet u wallet =>
      obtain ⟨hnormal, rfl | rfl⟩ := hi
      · exact hsame _ rfl
      · exact h.wallet (.inr hnormal)
  | switchWallet u wallet =>
      obtain ⟨canonical, -, hnormal, rfl⟩ := hi
      by_cases hok : s.switched u canonical = .ok
      · have hput : Clean cfg (s.put u ({ · with walletAddress := canonical })) :=
          h.put (.inr hnormal) fun id hid => h.key_hash hid
        rw [exec_switch_ok hok]
        exact ⟨hput.normal, hput.key⟩
      · rwa [exec_switch_failed hok]
  | unlinkWallet u =>
      obtain ⟨w, -, rfl⟩ | rfl := hi
      · exact hsame _ rfl
      · exact h.wallet (.inl rfl)
  | telegramSignIn data =>
      obtain ⟨u, hash, rfl, hid, hnormal⟩ | ⟨t, u, rfl⟩ | ⟨w, u, rfl⟩ := hi
      · exact h.put (f := fun _ => hash) hnormal fun id hid' =>
          Option.some.inj (hid'.symm.trans hid)
      · exact hsame _ rfl
      · exact hsame _ rfl
  | _ => cases hi

end Stores

/-! ## Logs -/

section Logs

variable {r : Request} {c : Identity.Command} {s : Identity.Store} {l : Log} {u w : String}
  {ids : List Nat}

@[simp] theorem note_begun : (l.note r c s).begun = l.begun := by
  unfold Log.note
  split
  · rfl
  · cases maps s c with
    | none => rfl
    | some m => rfl

@[simp] theorem report_begun : (l.report r c s).begun = l.begun := by
  unfold Log.report
  split
  · rfl
  · cases l.deleted r.id with
    | none => rfl
    | some w => rfl
  · split
    · unfold Log.switch
      split
      · rfl
      · rfl
    · rfl
  · rfl

theorem note_deleted {j : Nat} (h : (l.note r c s).deleted j = some w) :
    l.deleted j = some w ∨ c = .deleteAuthWallet w := by
  unfold Log.note at h
  split at h
  · rename_i x
    dsimp only at h
    by_cases hj : j = r.id
    · subst hj
      rw [Function.update_self] at h
      exact .inr (congrArg _ (Option.some.inj h))
    · rw [Function.update_of_ne hj] at h
      exact .inl h
  · cases hm : maps s c with
    | none =>
        rw [hm] at h
        exact .inl h
    | some m =>
        rw [hm] at h
        exact .inl h

@[simp] theorem report_deleted : (l.report r c s).deleted = l.deleted := by
  unfold Log.report
  split
  · rfl
  · cases hd : l.deleted r.id with
    | none => rfl
    | some w => rfl
  · split
    · unfold Log.switch
      split
      · rfl
      · rfl
    · rfl
  · rfl

/-- An entry that stays: the command does not map the wallet back, unless its
operation had begun when the account left it. -/
theorem note_left (h : (l.note r c s).left u w = some ids) :
    l.left u w = some ids ∧ (maps s c = some (u, w) → r.id ∈ ids) := by
  unfold Log.note at h
  split at h
  · refine ⟨h, fun hm => ?_⟩
    cases hm
  · cases hm : maps s c with
    | none =>
        rw [hm] at h
        exact ⟨h, fun hm' => by cases hm'⟩
    | some m =>
        obtain ⟨u', w'⟩ := m
        rw [hm] at h
        simp only [Option.elim_some, Log.map] at h
        split at h
        · rename_i heq
          obtain ⟨rfl, rfl⟩ := heq
          obtain ⟨hold, hmem⟩ := Option.filter_eq_some_iff.mp h
          exact ⟨hold, fun _ => by simpa using hmem⟩
        · rename_i hne
          refine ⟨h, fun hm' => absurd ?_ hne⟩
          obtain ⟨rfl, rfl⟩ := Prod.mk.inj (Option.some.inj hm')
          exact ⟨rfl, rfl⟩

/-- The wallet that an account leaves with the last command of an operation. -/
inductive Leaves (r : Request) (l : Log) (s : Identity.Store) (u w : String) :
    Identity.Command → Prop where
  | unlinked {x v} : r.op = .unlinkWallet x → l.deleted r.id = some w →
      Leaves r l s u w (.putWalletAddress u v)
  | switched {x wallet canonical} : r.op = .switchWallet x wallet →
      s.switched u canonical = .ok → wallets s u = w → w ≠ canonical →
      Leaves r l s u w (.switchWallet u canonical)

theorem leave_left {l : Log} {x y : String} (h : (l.leave x y).left u w = some ids) :
    l.left u w = some ids ∨ ids = l.begun ∧ u = x ∧ w = y := by
  unfold Log.leave at h
  dsimp only at h
  split at h
  · rename_i heq
    exact .inr ⟨(Option.some.inj h).symm, heq.1, heq.2⟩
  · exact .inl h

theorem report_left (h : (l.report r c s).left u w = some ids) :
    l.left u w = some ids ∨ ids = l.begun ∧ Leaves r l s u w c := by
  unfold Log.report at h
  split at h
  · exact .inl h
  · rename_i hop
    cases hd : l.deleted r.id with
    | none =>
        rw [hd] at h
        exact .inl h
    | some x =>
        rw [hd] at h
        rcases leave_left h with hold | ⟨hids, rfl, rfl⟩
        · exact .inl hold
        · exact .inr ⟨hids, .unlinked hop hd⟩
  · rename_i hop
    split at h
    · rename_i hok
      unfold Log.switch at h
      split at h
      · exact .inl h
      · rename_i hne
        rcases leave_left h with hold | ⟨hids, rfl, rfl⟩
        · exact .inl hold
        · exact .inr ⟨hids, .switched hop hok rfl hne⟩
    · exact .inl h
  · exact .inl h

theorem record_begun {p : WalletCall} :
    (∃ r rest, p = .running r rest) ∧ (record p s l).begun = l.begun
      ∨ (record p s l).begun = p.op.id :: l.begun := by
  cases p with
  | arriving r => exact .inr rfl
  | running r rest =>
      refine .inl ⟨⟨r, rest, rfl⟩, ?_⟩
      cases rest with
      | exec c next =>
          unfold record
          dsimp only
          split
          · simp
          · simp
      | _ => rfl

theorem record_deleted {p : WalletCall} {j : Nat} (h : (record p s l).deleted j = some w) :
    l.deleted j = some w ∨ ∃ r, p.command? = some (r, .deleteAuthWallet w) := by
  cases p with
  | arriving r => exact .inl h
  | running r rest =>
      cases rest with
      | exec c next =>
          have hnote : (l.note r c s).deleted j = some w := by
            unfold record at h
            dsimp only at h
            split at h
            · rwa [report_deleted] at h
            · exact h
          refine (note_deleted hnote).imp_right ?_
          rintro rfl
          exact ⟨r, rfl⟩
      | _ => exact .inl h

/-- An entry after a step was there before, and the step did not map the wallet
back in time, or it is made by the last command of an operation. -/
theorem record_left {p : WalletCall} (h : (record p s l).left u w = some ids) :
    (l.left u w = some ids
      ∧ ∀ r d, p.command? = some (r, d) → maps s d = some (u, w) → r.id ∈ ids)
    ∨ ids = l.begun ∧ ∃ r d next, p = .running r (.exec d next)
      ∧ (Call.running r (next s) : WalletCall).completed = true ∧ Leaves r l s u w d := by
  cases p with
  | arriving r => exact .inl ⟨h, fun _ _ hc => (by cases hc)⟩
  | running r rest =>
      cases rest with
      | exec c next =>
          have hkept : (l.note r c s).left u w = some ids → l.left u w = some ids
              ∧ ∀ r' d, (Call.running r (.exec c next) : WalletCall).command? = some (r', d) →
                maps s d = some (u, w) → r'.id ∈ ids := by
            intro hn
            obtain ⟨hl, hm⟩ := note_left hn
            refine ⟨hl, ?_⟩
            rintro _ _ ⟨rfl, rfl⟩
            exact hm
          unfold record at h
          dsimp only at h
          split at h
          · rename_i hdone
            rcases report_left h with hl | ⟨hids, hleaves⟩
            · exact .inl (hkept hl)
            · rw [note_begun] at hids
              refine .inr ⟨hids, r, c, next, rfl, hdone, ?_⟩
              cases hleaves with
              | unlinked hop hd =>
                  refine .unlinked hop ((note_deleted hd).resolve_right fun hc => ?_)
                  cases hc
              | switched hop hok hw hne => exact .switched hop hok hw hne
          · exact .inl (hkept h)
      | _ => exact .inl ⟨h, fun _ _ hc => (by cases hc)⟩

end Logs

/-! ## The invariant -/

/-- The operation does not bring the wallet back to the account that has left it
while those of `ids` were under way. -/
structure Spares (u w : String) (ids : List Nat) (p : WalletCall) : Prop where
  targets : Targets cfg u w p.op.op → p.op.id ∉ ids
  links : ∀ wallet, p.op.op = .linkWallet u wallet → normalizeWallet cfg wallet = w →
    (p.rest (Request.program cfg)).First fun c => ∃ w, c = .setAuthWallet w u
  signs : ∀ data, p.op.op = .telegramSignIn data → Harmless cfg u w (p.rest (Request.program cfg))

/-- The account has left the wallet and does not have it. -/
structure Gone (s : Identity.Store) (pool : List WalletCall) (u w : String) (ids : List Nat) :
    Prop where
  named : w ≠ ""
  without : wallets s u ≠ w
  begun : ∀ j ∈ ids, j < pool.length
  calls : ∀ p ∈ pool, p.isOver = false → Spares cfg u w ids p

def Clearing (pool : List WalletCall) (u : String) : Prop :=
  ∃ p ∈ pool, p.Owes (Request.program cfg) (clears u)

structure Kept (c : State) : Prop where
  clean : Clean cfg c.store.1
  calls : ∀ p ∈ c.pool, Formed cfg p
  index : Indexed "" (wallets c.store.1) c.store.1.authWallet (Clearing cfg c.pool)
  numbers : ∀ (i : Nat) p, c.pool[i]? = some p → p.op.id = i
  begun : ∀ j ∈ c.store.2.begun, j < c.pool.length
  running : ∀ p ∈ c.pool, p.op.id ∉ c.store.2.begun → ∃ r, p = .arriving r
  deleted : ∀ j w, c.store.2.deleted j = some w → w ≠ ""
  gone : ∀ u w ids, c.store.2.left u w = some ids → Gone cfg c.store.1 c.pool u w ids

variable {cfg} {c : State}

/-- No operation of `ids` is about to map the wallet back. -/
theorem Gone.not_maps {s : Identity.Store} {pool : List WalletCall} {u w : String}
    {ids : List Nat} (h : Gone cfg s pool u w ids) {p : WalletCall} (hp : Formed cfg p)
    (hmem : p ∈ pool) (hids : p.op.id ∈ ids) {r : Request} {d : Identity.Command}
    (hd : p.command? = some (r, d)) : maps s d ≠ some (u, w) := by
  obtain ⟨next, rfl⟩ := Call.command?_eq_some hd
  have hspares := h.calls _ hmem rfl
  have hissues := hp.command hd
  obtain ⟨id, op⟩ := r
  intro hm
  cases op with
  | linkWallet x wallet =>
      obtain ⟨-, rfl | rfl⟩ := hissues
      · obtain ⟨rfl, rfl⟩ := Prod.mk.inj (Option.some.inj hm)
        exact hspares.targets ⟨rfl, rfl⟩ hids
      · cases hm
  | switchWallet x wallet =>
      obtain ⟨canonical, hcanonical, -, rfl⟩ := hissues
      simp only [maps] at hm
      split at hm
      · obtain ⟨rfl, rfl⟩ := Prod.mk.inj (Option.some.inj hm)
        exact hspares.targets ⟨rfl, hcanonical⟩ hids
      · cases hm
  | unlinkWallet x =>
      obtain ⟨_, -, rfl⟩ | rfl := hissues
      · cases hm
      · cases hm
  | telegramSignIn data =>
      refine (hspares.signs data rfl).1 ?_
      obtain ⟨_, _, rfl, -⟩ | ⟨_, _, rfl⟩ | ⟨_, _, rfl⟩ := hissues
      · cases hm
      · cases hm
      · obtain ⟨rfl, rfl⟩ := Prod.mk.inj (Option.some.inj hm)
        rfl
  | _ => cases hissues

theorem Kept.owned (h : Kept cfg c) : Owned c := by
  refine ⟨fun u v w hu hv => ?_, fun hidle u w hu => ?_, fun u w ids hleft p hp hids r d hd hm => ?_⟩
  · refine h.index.one v u ?_ (hu.wallet.trans hv.wallet.symm)
    rw [hv.wallet]
    exact hv.named
  · have hmapped := h.index.mapped u
    rw [hu.wallet] at hmapped
    refine (hmapped hu.named).resolve_right ?_
    rintro ⟨p, hp, ho⟩
    have hover := ho.not_isOver
    rw [hidle p hp] at hover
    cases hover
  · exact (h.gone u w ids hleft).not_maps (h.calls p hp) hp hids hd hm

section Step

variable {i : Nat} {p p' : WalletCall} {s' : Identity.Store} {u w : String} {ids : List Nat}

/-- The command does not bring the wallet into the record of the account. -/
theorem Gone.without_exec (h : Gone cfg c.store.1 c.pool u w ids) (hp : Formed cfg p)
    (hmem : p ∈ c.pool) {r : Request} {d : Identity.Command} (hd : p.command? = some (r, d))
    (htimely : Timely cfg c r d) (hmaps : maps c.store.1 d = some (u, w) → r.id ∈ ids) :
    wallets (Store.exec d c.store.1) u ≠ w := by
  obtain ⟨next, rfl⟩ := Call.command?_eq_some hd
  have hspares := h.calls _ hmem rfl
  have hissues := hp.command hd
  have hwithout := h.without
  obtain ⟨id, op⟩ := r
  have hput : ∀ x v, (x = u → v ≠ w) → Function.update (wallets c.store.1) x v u ≠ w := by
    intro x v hv
    by_cases hx : u = x
    · subst hx
      rw [Function.update_self]
      exact hv rfl
    · rwa [Function.update_of_ne hx]
  cases op with
  | linkWallet x wallet =>
      obtain ⟨-, rfl | rfl⟩ := hissues
      · exact hwithout
      · rw [wallets_putWalletAddress]
        refine hput x _ fun hx heq => ?_
        obtain ⟨_, hfirst⟩ := hspares.links wallet (by rw [← hx]; rfl) heq
        cases hfirst
  | switchWallet x wallet =>
      obtain ⟨canonical, hcanonical, -, rfl⟩ := hissues
      by_cases hok : c.store.1.switched x canonical = .ok
      · rw [(exec_switch hok).2.1]
        refine hput x _ fun hx heq => ?_
        subst hx heq
        exact hspares.targets ⟨rfl, hcanonical⟩ (hmaps (by simp [maps, hok]))
      · rwa [exec_switch_failed hok]
  | unlinkWallet x =>
      obtain ⟨_, -, rfl⟩ | rfl := hissues
      · exact hwithout
      · rw [wallets_putWalletAddress]
        exact hput x _ fun _ => h.named.symm
  | telegramSignIn data =>
      obtain ⟨x, hash, rfl, -⟩ | ⟨_, _, rfl⟩ | ⟨_, _, rfl⟩ := hissues
      · rw [wallets_putAll]
        refine hput x _ fun hx => ?_
        have hkeep : hash.walletAddress = "" ∨ hash.walletAddress = wallets c.store.1 x := htimely
        rcases hkeep with hempty | hsame
        · exact fun heq => h.named (heq.symm.trans hempty)
        · exact fun heq => hwithout (hx ▸ hsame.symm.trans heq)
      · exact hwithout
      · exact hwithout
  | _ => cases hissues

/-- The operation that has taken a step spares the account still. -/
theorem Spares.step (h : Spares cfg u w ids p) (hp : Formed cfg p)
    (hs : Without cfg u w c.store.1) (hstep : (plain cfg).step p c.store.1 = some (s', p'))
    (hmaps : ∀ r d, p.command? = some (r, d) → maps c.store.1 d = some (u, w) → r.id ∈ ids) :
    Spares cfg u w ids p' := by
  have hop := (Call.step_cases hstep).1
  refine ⟨fun ht => ?_, fun wallet hl hw => ?_, fun data hd => ?_⟩
  · rw [hop] at ht ⊢
    exact h.targets ht
  · rw [hop] at hl
    have hfirst := h.links wallet hl hw
    rcases Call.step_rest hstep with ⟨-, -, hr⟩ | ⟨next, hread, -, -, hr⟩ |
      ⟨d, next, hexec, hcmd, -, -⟩
    · rwa [hr]
    · rw [hread] at hfirst
      rw [hr]
      exact hfirst c.store.1
    · -- the link maps the wallet back, but it has not begun in time for that
      rw [hexec] at hfirst
      obtain ⟨x, rfl⟩ := hfirst
      have hissues := hp.command hcmd
      unfold Issues at hissues
      rw [hl] at hissues
      obtain ⟨-, heq | heq⟩ := hissues
      · obtain ⟨rfl, -⟩ := Command.setAuthWallet.inj heq
        refine absurd (hmaps _ _ hcmd (by rw [← hw]; rfl)) (h.targets ?_)
        rw [hl]
        exact ⟨rfl, hw⟩
      · cases heq
  · have hharmless := h.signs data (hop ▸ hd)
    rcases Call.rest_step hstep with ⟨-, hr⟩ | hr
    · rwa [hr]
    · exact Ensures.step hharmless hs hr

theorem Gone.step (h : Gone cfg c.store.1 c.pool u w ids) (hc : Clean cfg c.store.1)
    (hp : Formed cfg p) (hi : c.pool[i]? = some p)
    (hstep : (plain cfg).step p c.store.1 = some (s', p'))
    (htimely : ∀ r d, p.command? = some (r, d) → Timely cfg c r d)
    (hmaps : ∀ r d, p.command? = some (r, d) → maps c.store.1 d = some (u, w) → r.id ∈ ids) :
    Gone cfg s' (c.pool.set i p') u w ids := by
  have hmem := List.mem_of_getElem? hi
  refine ⟨h.named, ?_, fun j hj => ?_, fun q hq hover => ?_⟩
  · rcases (Call.step_cases hstep).2 with ⟨rfl, -⟩ | ⟨d, hcmd, rfl⟩
    · exact h.without
    · exact h.without_exec hp hmem hcmd (htimely _ d hcmd) (hmaps _ d hcmd)
  · rw [List.length_set]
    exact h.begun j hj
  · rcases List.mem_or_eq_of_mem_set hq with hq | rfl
    · exact h.calls q hq hover
    · exact (h.calls p hmem (Call.isOver_of_step hstep)).step hp ⟨hc, h.without⟩ hstep hmaps

/-- Records and mappings, command by command. -/
theorem Kept.index_exec (h : Kept cfg c) (hi : c.pool[i]? = some p) {d : Identity.Command}
    (hstep : (plain cfg).step p c.store.1 = some (Store.exec d c.store.1, p'))
    (hcmd : p.command? = some (p.op, d)) (htimely : Timely cfg c p.op d) :
    Indexed "" (wallets (Store.exec d c.store.1)) (Store.exec d c.store.1).authWallet
      (Clearing cfg (c.pool.set i p')) := by
  have hp := h.calls p (List.mem_of_getElem? hi)
  have hissues := hp.command hcmd
  have hmono : ∀ v, d ≠ .putWalletAddress v "" → Clearing cfg c.pool v →
      Clearing cfg (c.pool.set i p') v := fun v hv => Call.exists_owes_turn hi hstep fun e he hψ => by
    obtain rfl := (Prod.mk.inj (Option.some.inj (hcmd.symm.trans he))).2
    exact hv hψ
  -- a command that clears no record leaves every clearing under way
  have hbefore : (∀ v, d ≠ .putWalletAddress v "") → Indexed "" (wallets c.store.1)
      c.store.1.authWallet (Clearing cfg (c.pool.set i p')) := fun hd =>
    h.index.mono fun v _ => hmono v (hd v)
  have hfollows := hp.clears
  generalize hr : p.op = r at *
  obtain ⟨id, op⟩ := r
  cases op with
  | linkWallet u wallet =>
      obtain ⟨hnormal, rfl | rfl⟩ := hissues
      · exact (hbefore fun _ hd => by cases hd).claim htimely
      · rw [wallets_putWalletAddress]
        refine (hbefore fun v hd => ?_).write (.inr (.inr htimely))
        exact hnormal.ne_empty (Command.putWalletAddress.inj hd).2
  | switchWallet u wallet =>
      obtain ⟨canonical, -, -, rfl⟩ := hissues
      have hindex := hbefore fun _ hd => by cases hd
      by_cases hok : c.store.1.switched u canonical = .ok
      · obtain ⟨hne, hwallets, hauth⟩ := exec_switch hok
        rw [hwallets, hauth]
        exact hindex.switch hne (htimely hok).1
      · rwa [exec_switch_failed hok]
  | unlinkWallet u =>
      obtain ⟨w, -, rfl⟩ | rfl := hissues
      · refine (hbefore fun _ hd => by cases hd).release ?_ htimely
        exact ⟨p', List.mem_set (List.getElem?_eq_some_iff.mp hi).1 p',
          (hfollows u rfl).owes hcmd ⟨w, rfl⟩ hstep⟩
      · rw [wallets_putWalletAddress]
        refine (h.index.write (.inl rfl)).mono fun v hv hc => hmono v (fun hd => hv ?_) hc
        obtain ⟨rfl, -⟩ := Command.putWalletAddress.inj hd
        exact Function.update_self ..
  | telegramSignIn data =>
      obtain ⟨u, hash, rfl, -⟩ | ⟨_, _, rfl⟩ | ⟨_, _, rfl⟩ := hissues
      · rw [wallets_putAll]
        exact (hbefore fun _ hd => by cases hd).write (htimely.imp_right .inl)
      · exact hbefore fun _ hd => by cases hd
      · exact (hbefore fun _ hd => by cases hd).claim htimely
  | _ => cases hissues

/-- The account has left the wallet with the last command of an operation. -/
theorem Kept.fresh (h : Kept cfg c) (hi : c.pool[i]? = some p)
    {d : Identity.Command}
    (hstep : (plain cfg).step p c.store.1 = some (Store.exec d c.store.1, p'))
    (hcmd : p.command? = some (p.op, d)) (htimely : Timely cfg c p.op d)
    (hover : p'.isOver = true) (hleaves : Leaves p.op c.store.2 c.store.1 u w d) :
    Gone cfg (Store.exec d c.store.1) (c.pool.set i p') u w c.store.2.begun := by
  have hmem := List.mem_of_getElem? hi
  obtain ⟨hnamed, hwithout, hclear⟩ : w ≠ "" ∧ wallets (Store.exec d c.store.1) u ≠ w
      ∧ Clear cfg c p.op.id u w := by
    have hissues := (h.calls p hmem).command hcmd
    generalize p.op = r at *
    obtain ⟨id, op⟩ := r
    cases hleaves with
    | unlinked hop hdeleted =>
        obtain rfl : op = _ := hop
        obtain ⟨_, -, hd⟩ | hd := hissues
        · cases hd
        · obtain ⟨rfl, rfl⟩ := Command.putWalletAddress.inj hd
          have hne := h.deleted id w hdeleted
          rw [wallets_putWalletAddress, Function.update_self]
          exact ⟨hne, hne.symm, htimely w hdeleted⟩
    | switched hop hok hw hne =>
        obtain rfl : op = _ := hop
        obtain ⟨hnamed, hwallets, -⟩ := exec_switch hok
        subst hw
        rw [hwallets, Function.update_self]
        exact ⟨hnamed, hne.symm, (htimely hok).2 hne⟩
  refine ⟨hnamed, hwithout, fun j hj => ?_, fun q hq hq' => ?_⟩
  · rw [List.length_set]
    exact h.begun j hj
  · obtain ⟨j, hj⟩ := List.mem_iff_getElem?.mp hq
    have hne : i ≠ j := by
      rintro rfl
      rw [List.getElem?_set_self (List.getElem?_eq_some_iff.mp hi).1] at hj
      obtain rfl := Option.some.inj hj
      rw [hover] at hq'
      cases hq'
    rw [List.getElem?_set_ne hne] at hj
    have hqmem := List.mem_of_getElem? hj
    have hid : q.op.id ≠ p.op.id := by
      rw [h.numbers j q hj, h.numbers i p hi]
      exact hne.symm
    by_cases hbegun : q.op.id ∈ c.store.2.begun
    · obtain ⟨htargets, howes⟩ := hclear q hqmem hid hbegun hq'
      refine ⟨fun ht => absurd ht htargets, fun wallet hl hw => ?_, fun data hd => ?_⟩
      · refine absurd ?_ htargets
        rw [hl]
        exact ⟨rfl, hw⟩
      · exact ((h.calls q hqmem).signs data hd u w).now.resolve_left howes
    · obtain ⟨⟨id, op⟩, rfl⟩ := h.running q hqmem hbegun
      refine ⟨fun _ => hbegun, ?_, ?_⟩
      · rintro wallet ⟨rfl⟩ -
        exact linkWallet_first id u wallet
      · rintro data ⟨rfl⟩
        exact telegramSignIn_harmless id data u w

theorem Gone.start {r : Request} (h : Gone cfg c.store.1 c.pool u w ids)
    (hid : r.id = c.pool.length) : Gone cfg c.store.1 (c.pool ++ [.arriving r]) u w ids := by
  refine ⟨h.named, h.without, fun j hj => ?_, fun q hq hover => ?_⟩
  · have hlt := h.begun j hj
    rw [List.length_append]
    omega
  · rcases List.mem_append.mp hq with hq | hq
    · exact h.calls q hq hover
    · obtain rfl := List.mem_singleton.mp hq
      obtain ⟨id, op⟩ := r
      refine ⟨fun _ hmem => ?_, ?_, ?_⟩
      · exact absurd (h.begun _ hmem) (hid ▸ Nat.lt_irrefl _)
      · rintro wallet ⟨rfl⟩ -
        exact linkWallet_first id u wallet
      · rintro data ⟨rfl⟩
        exact telegramSignIn_harmless id data u w

theorem Kept.start (h : Kept cfg c) (hcfg : cfg.Lawful) {r : Request}
    (hid : r.id = c.pool.length) (hscope : scope r.op = true) :
    Kept cfg { c with pool := c.pool ++ [.arriving r] } where
  clean := h.clean
  calls := forall_start h.calls (formed_arriving hcfg hscope)
  index := h.index.mono fun _ _ ⟨q, hq, ho⟩ => ⟨q, List.mem_append_left _ hq, ho⟩
  numbers i q hq := by
    by_cases hi : i < c.pool.length
    · rw [List.getElem?_append_left hi] at hq
      exact h.numbers i q hq
    · have hlen := (List.getElem?_eq_some_iff.mp hq).1
      rw [List.length_append, List.length_singleton] at hlen
      obtain rfl : i = c.pool.length := by omega
      rw [List.getElem?_concat_length] at hq
      obtain rfl := Option.some.inj hq
      exact hid
  begun j hj := by
    have hlt := h.begun j hj
    rw [List.length_append]
    omega
  running q hq hbegun := by
    rcases List.mem_append.mp hq with hq | hq
    · exact h.running q hq hbegun
    · exact ⟨r, List.mem_singleton.mp hq⟩
  deleted := h.deleted
  gone u w ids hl := (h.gone u w ids hl).start hid

theorem Kept.turn (h : Kept cfg c) (hg : Orderly cfg c (.turn i)) (hi : c.pool[i]? = some p)
    (hstep : (plain cfg).step p c.store.1 = some (s', p')) :
    Kept cfg ⟨(s', record p c.store.1 c.store.2), c.pool.set i p'⟩ := by
  have hmem := List.mem_of_getElem? hi
  have hp := h.calls p hmem
  have htimely : ∀ r d, p.command? = some (r, d) → Timely cfg c r d :=
    fun r d => hg.2 i p r d rfl hi
  have hop := (Call.step_cases hstep).1
  refine ⟨?_, forall_turn h.calls (hp.step h.clean hstep), ?_, fun j q hq => ?_, fun j hj => ?_,
    fun q hq hbegun => ?_, fun j w hj => ?_, fun u w ids hl => ?_⟩
  · rcases (Call.step_cases hstep).2 with ⟨rfl, -⟩ | ⟨d, hcmd, rfl⟩
    · exact h.clean
    · exact h.clean.exec (hp.command hcmd)
  · rcases (Call.step_cases hstep).2 with ⟨rfl, hnone⟩ | ⟨d, hcmd, rfl⟩
    · refine h.index.mono fun v _ => Call.exists_owes_turn hi hstep fun d hd => ?_
      rw [hnone] at hd
      cases hd
    · exact h.index_exec hi hstep hcmd (htimely _ d hcmd)
  · by_cases hij : i = j
    · subst hij
      rw [List.getElem?_set_self (List.getElem?_eq_some_iff.mp hi).1] at hq
      obtain rfl := Option.some.inj hq
      exact (congrArg Request.id hop).trans (h.numbers i p hi)
    · rw [List.getElem?_set_ne hij] at hq
      exact h.numbers j q hq
  · rw [List.length_set]
    rcases record_begun (p := p) (s := c.store.1) (l := c.store.2) with ⟨-, hb⟩ | hb
    · exact h.begun j (hb ▸ hj)
    · rcases List.mem_cons.mp (hb ▸ hj) with rfl | hj
      · rw [h.numbers i p hi]
        exact (List.getElem?_eq_some_iff.mp hi).1
      · exact h.begun j hj
  · dsimp only at hbegun
    rcases record_begun (p := p) (s := c.store.1) (l := c.store.2) with ⟨⟨r, rest, hrun⟩, hb⟩ | hb
    · rw [hb] at hbegun
      rcases List.mem_or_eq_of_mem_set hq with hq | rfl
      · exact h.running q hq hbegun
      · rw [hop] at hbegun
        obtain ⟨_, harriving⟩ := h.running p hmem hbegun
        rw [hrun] at harriving
        cases harriving
    · rw [hb, List.mem_cons, not_or] at hbegun
      rcases List.mem_or_eq_of_mem_set hq with hq | rfl
      · exact h.running q hq hbegun.2
      · exact absurd (congrArg Request.id hop) hbegun.1
  · rcases record_deleted hj with hj | ⟨r, hcmd⟩
    · exact h.deleted j w hj
    · exact (hp.command hcmd).deleted_ne
  · rcases record_left hl with ⟨hl, hmaps⟩ | ⟨rfl, r, d, next, rfl, hdone, hleaves⟩
    · exact (h.gone u w ids hl).step h.clean hp hi hstep htimely hmaps
    · obtain ⟨rfl, rfl⟩ := Prod.mk.inj (Option.some.inj hstep)
      refine h.fresh hi hstep rfl (htimely r d rfl) ?_ hleaves
      exact Call.isOver_of_completed hdone

theorem kept_preserved (hcfg : cfg.Lawful) : (server cfg).Preserves (Orderly cfg) (Kept cfg) where
  start c p h hg hp := by
    cases p with
    | arriving r => exact h.start hcfg hg.1.1 hg.1.2
    | running r rest => cases hp
  turn c i p s' p' h hg hi hs := by
    obtain ⟨hstep, hlog⟩ := Server.recording_step hs
    obtain ⟨s', l'⟩ := s'
    dsimp only at hstep hlog
    subst hlog
    exact h.turn hg hi hstep
  env c e s' h _ he := by
    cases e

end Step

theorem kept_start {s : Identity.Store} (h : Opened cfg s) : Kept cfg (start s) where
  clean := h.toClean
  calls _ hp := by cases hp
  index := by
    refine ⟨fun u hu => .inl (h.mapped u hu), fun u v hv ha => ?_, fun u v hu hv => ?_⟩
    · exact Option.some.inj ((h.mapped v hv).symm.trans ha)
    · have hsame : wallets s v = wallets s u := hv
      have hmapped := h.mapped v (hsame ▸ hu)
      rw [hsame] at hmapped
      exact Option.some.inj (hmapped.symm.trans (h.mapped u hu))
  numbers _ _ hp := by cases hp
  begun _ hj := by cases hj
  running _ hp := by cases hp
  deleted _ _ hd := by cases hd
  gone _ _ _ hl := by cases hl

section Accounts

variable (names : List String)

/-- The command writes no record but those of the accounts. -/
def writes : Identity.Command → Bool
  | .putAll u _ | .putTelegramId u _ | .putWalletAddress u _ | .switchWallet u _ =>
      names.contains u
  | _ => true

/-- No other account has a record. -/
def Among (s : Identity.Store) : Prop := ∀ u, names.contains u = false → s.users u = none

variable {names}

theorem Among.exec {s : Identity.Store} {d : Identity.Command} (h : Among names s)
    (hd : writes names d = true) : Among names (Store.exec d s) := by
  have hput : ∀ s' u r, names.contains u = true → s'.users = Function.update s.users u (some r) →
      Among names s' := by
    intro s' u r hu hs' v hv
    have hne : v ≠ u := by
      rintro rfl
      rw [hu] at hv
      cases hv
    rw [hs', Function.update_of_ne hne]
    exact h v hv
  cases d with
  | putAll u hash => exact hput _ u _ hd rfl
  | putTelegramId u t => exact hput _ u _ hd rfl
  | putWalletAddress u w => exact hput _ u _ hd rfl
  | switchWallet u w =>
      by_cases hok : s.switched u w = .ok
      · rw [exec_switch_ok hok]
        exact hput _ u _ hd rfl
      · rwa [exec_switch_failed hok]
  | _ => exact h

theorem Among.unheld {s : Identity.Store} {u w : String} (h : Among names s) (hw : w ≠ "")
    (hall : names.all (fun v => v = u || wallets s v ≠ w) = true) : Unheld s u w := by
  intro v hv
  by_cases hn : names.contains v = true
  · have hthis := List.all_eq_true.mp hall v (by simpa using hn)
    simpa [hv] using hthis
  · have hnone := h v (by simpa using hn)
    simpa [wallets, Store.hash, hnone, UserHash.empty] using hw.symm

/-- Links and unlinks whose grounds are still there, one at a time. -/
def timely (names : List String) (c : State) (r : Request) (d : Identity.Command) : Bool :=
  match r.op, d with
  | _, .setAuthWallet w u => w ≠ "" && names.all (fun v => v = u || wallets c.store.1 v ≠ w)
  | .linkWallet .., .putWalletAddress u w => c.store.1.authWallet w = some u
  | .unlinkWallet u, .deleteAuthWallet w => (c.store.1.authWallet w).all (· = u)
  | .unlinkWallet .., .putWalletAddress .. => c.pool.all fun p => p.op.id = r.id || p.isOver
  | _, _ => false

def numbered (c : State) : Action WalletCall Empty → Bool
  | .start p => p.op.id = c.pool.length && scope p.op.op
  | _ => true

def orderly (names : List String) (c : State) (a : Action WalletCall Empty) : Bool :=
  numbered c a &&
    match a with
    | .turn i =>
        match c.pool[i]?.bind (·.command?) with
        | some (r, d) => writes names d && timely names c r d
        | none => true
    | _ => true

theorem numbered_iff {c : State} {a : Action WalletCall Empty} :
    numbered c a = true ↔ Numbered c a := by
  cases a with
  | start p => simp [numbered, Numbered]
  | _ => simp [numbered, Numbered]

theorem timely_of_timely {cfg : Platform} {c : State} {r : Request} {d : Identity.Command}
    (h : timely names c r d = true) (hs : Among names c.store.1) : Timely cfg c r d := by
  obtain ⟨id, op⟩ := r
  unfold timely at h
  split at h
  · rename_i w u
    obtain ⟨hw, hall⟩ := Bool.and_eq_true_iff.mp h
    have hunheld := hs.unheld (by simpa using hw) hall
    cases op with
    | _ => exact hunheld
  · rename_i hop
    cases hop
    have hmap : c.store.1.authWallet _ = some _ := of_decide_eq_true h
    exact hmap
  · rename_i u w hop
    cases hop
    intro v hv
    have heq : (c.store.1.authWallet w).all (· = u) = true := h
    rw [hv] at heq
    simpa using heq
  · rename_i hop
    cases hop
    intro w _ p hp hid _ hover
    have hall := List.all_eq_true.mp h p hp
    rw [hover] at hall
    simp [hid] at hall
  · cases h

theorem run_orderly {cfg : Platform} {c c' : State}
    (hrun : (server cfg).Run (fun c a => orderly names c a = true) c c')
    (hs : Among names c.store.1) :
    (server cfg).Run (Orderly cfg) c c' ∧ Among names c'.store.1 := by
  induction hrun with
  | refl => exact ⟨.refl _, hs⟩
  | tail hr hg hnext ih =>
      rename_i c₁ c₂ a
      obtain ⟨hrun, hamong⟩ := ih
      obtain ⟨hnumbered, hturn⟩ := Bool.and_eq_true_iff.mp hg
      have hcommand : ∀ i p r d, a = .turn i → c₁.pool[i]? = some p → p.command? = some (r, d) →
          writes names d = true ∧ timely names c₁ r d = true := by
        rintro i p r d rfl hi hd
        simpa [hi, hd] using hturn
      refine ⟨hrun.tail ⟨numbered_iff.mp hnumbered, fun i p r d ha hi hd => ?_⟩ hnext, ?_⟩
      · exact timely_of_timely (hcommand i p r d ha hi hd).2 hamong
      · rcases Server.next_cases hnext with ⟨p, rfl, -, rfl⟩ | ⟨i, p, s', p', rfl, hi, hstep, rfl⟩ |
          ⟨e, -⟩
        · exact hamong
        · obtain ⟨hplain, -⟩ := Server.recording_step hstep
          rcases (Call.step_cases hplain).2 with ⟨hsame, -⟩ | ⟨d, hd, hsame⟩
          · exact hsame ▸ hamong
          · exact hsame ▸ hamong.exec (hcommand i p _ d rfl hi hd).1
        · cases e

end Accounts

/-- Two accounts that sign in with Telegram and have no wallet. -/
def accounts : Identity.Store where
  users u := if ["ann", "bob"].contains u then
    some ⟨some u, some .telegram, some u, some 1, "", ""⟩ else none
  authTg _ := none
  authWallet _ := none

theorem accounts_eq {u : String} {r : UserHash} (h : accounts.users u = some r) :
    r = ⟨some u, some .telegram, some u, some 1, "", ""⟩ := by
  simp only [accounts] at h
  split at h
  · exact (Option.some.inj h).symm
  · cases h

theorem accounts_opened (cfg : Platform) : Opened cfg accounts where
  normal u r h := .inl (by rw [accounts_eq h])
  key u r id h hid := by
    rw [accounts_eq h] at hid
    exact (Option.some.inj hid).symm
  mapped u h := by
    refine absurd ?_ h
    unfold wallets Store.hash
    cases hu : accounts.users u with
    | none => rfl
    | some r => exact congrArg UserHash.walletAddress (accounts_eq hu)

/-- An operation that arrives, and as many of its steps. -/
def arrives (id : Nat) (op : Op) (steps : Nat) : List (Action WalletCall Empty) :=
  .start (.arriving ⟨id, op⟩) :: List.replicate steps (.turn id)

/-- Ann links a wallet and unlinks it, and Bob links it then. -/
def handsOver : List (Action WalletCall Empty) :=
  arrives 0 (.linkWallet "ann" (some "0:a")) 5 ++ arrives 1 (.unlinkWallet "ann") 4
    ++ arrives 2 (.linkWallet "bob" (some "0:a")) 5

/-- Both find the wallet free, and both link it. -/
def linkedByBoth : List (Action WalletCall Empty) :=
  arrives 0 (.linkWallet "ann" (some "0:a")) 3 ++ arrives 1 (.linkWallet "bob" (some "0:a")) 5
    ++ [.turn 0, .turn 0]

end WalletOwner

end BurnedChats
