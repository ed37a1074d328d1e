import BurnedChats.Backend.Identity
import Mathlib.Data.List.DropRight

/-!
# Credentials lead to their account

Operations run one after the other. Every entry of `auth_tg` and `auth_wallet`
leads to an account that has the credential in its hash, so no account is the
target of two entries of one kind. Two operations can break this: a Telegram
account that is absorbed leaves the one its new owner had before behind, and a
sign-in that finds no mapping writes its derived account anew over whatever is
there.

`credentials_lead_home` says that everything is in order where neither happens.
-/

namespace BurnedChats

namespace Identity

open Program

/-! ## What is asked -/

/-- What the code relies on of the platform: normal forms are normal, and so is
the raw form of an address. -/
structure Platform.Lawful (cfg : Platform) : Prop where
  normal : ∀ w, normalizeWallet cfg (some (normalizeWallet cfg (some w)))
    = normalizeWallet cfg (some w)
  raw : ∀ a c, cfg.toRaw a = some c → isBlank c = false ∧ normalizeWallet cfg (some c) = c

/-- Every entry leads to an account with that credential. -/
structure LeadsHome (s : Store) : Prop where
  telegram : ∀ t u, s.authTg t = some u → ∃ r, s.users u = some r ∧ r.telegramId = some t
  wallet : ∀ w u, s.authWallet w = some u → ∃ r, s.users u = some r ∧ r.walletAddress = w
  oneTelegram : ∀ t t' u, s.authTg t = some u → s.authTg t' = some u → t = t'
  oneWallet : ∀ w w' u, s.authWallet w = some u → s.authWallet w' = some u → w = w'

/-- The random id of an account that may be created is new. -/
def Fresh (s : Store) : Op → Prop
  | .walletSignIn _ uuid => s.users uuid = none
  | _ => True

/-- The Telegram account leads to another account that has no wallet. -/
def Absorbs (s : Store) (u : String) (telegramId : Int) : Prop :=
  ∃ owner r, s.authTg telegramId = some owner ∧ owner ≠ u ∧ s.users owner = some r
    ∧ isBlank r.walletAddress = true

/-- An account that absorbs a Telegram account has no other one, and no entry leads
to the account that a sign-in derives because its own entry is missing. -/
def Careful (cfg : Platform) (s : Store) : Op → Prop
  | .linkTelegram u (some telegramId) =>
      Absorbs s u telegramId → ∀ t, s.authTg t ≠ some u
  | .telegramSignIn data => s.authTg data.id = none →
      (∀ t, s.authTg t ≠ some (cfg.forTelegramId data.id))
        ∧ ∀ w, s.authWallet w ≠ some (cfg.forTelegramId data.id)
  | _ => True

/-! ## The invariant -/

variable (cfg : Platform)

/-- A wallet in normal form. -/
structure Normal (wallet : String) : Prop where
  named : isBlank wallet = false
  same : normalizeWallet cfg (some wallet) = wallet

/-- Besides, entries are not of the empty text, and stored wallets are normal. -/
structure Sound (s : Store) : Prop where
  telegram : ∀ t u, s.authTg t = some u → ∃ r, s.users u = some r ∧ r.telegramId = some t
  wallet : ∀ w u, s.authWallet w = some u →
    ∃ r, s.users u = some r ∧ r.walletAddress = w ∧ w ≠ ""
  normal : ∀ u r, s.users u = some r → r.walletAddress = "" ∨ Normal cfg r.walletAddress
  key : ∀ u r id, s.users u = some r → r.internalId = some id → id = u

variable {cfg} {s s' : Store} {u : String} {r : UserHash}

theorem Sound.leadsHome (h : Sound cfg s) : LeadsHome s where
  telegram := h.telegram
  wallet w u hw :=
    let ⟨r, hr, hrw, _⟩ := h.wallet w u hw
    ⟨r, hr, hrw⟩
  oneTelegram t t' u ht ht' := by
    obtain ⟨r, hr, hrt⟩ := h.telegram t u ht
    obtain ⟨r', hr', hrt'⟩ := h.telegram t' u ht'
    obtain rfl := Option.some.inj (hr.symm.trans hr')
    exact Option.some.inj (hrt.symm.trans hrt')
  oneWallet w w' u hw hw' := by
    obtain ⟨r, hr, hrw, -⟩ := h.wallet w u hw
    obtain ⟨r', hr', hrw', -⟩ := h.wallet w' u hw'
    obtain rfl := Option.some.inj (hr.symm.trans hr')
    exact hrw.symm.trans hrw'

theorem sound_empty : Sound cfg .empty where
  telegram _ _ h := by cases h
  wallet _ _ h := by cases h
  normal _ _ h := by cases h
  key _ _ _ h := by cases h

/-- An entry of the account is one of the credentials in its hash. -/
theorem Sound.telegram_eq (h : Sound cfg s) (hr : s.users u = some r) {t : Int}
    (ht : s.authTg t = some u) : r.telegramId = some t := by
  obtain ⟨r', hr', hrt⟩ := h.telegram t u ht
  obtain rfl := Option.some.inj (hr.symm.trans hr')
  exact hrt

theorem Sound.wallet_eq (h : Sound cfg s) (hr : s.users u = some r) {w : String}
    (hw : s.authWallet w = some u) : r.walletAddress = w := by
  obtain ⟨r', hr', hrw, -⟩ := h.wallet w u hw
  obtain rfl := Option.some.inj (hr.symm.trans hr')
  exact hrw

/-- An operation that rewrites one account and entries that lead to it. -/
theorem Sound.rewrite (h : Sound cfg s) (hother : ∀ v, v ≠ u → s'.users v = s.users v)
    (hr : s'.users u = some r)
    (htg : ∀ t v, s'.authTg t = some v →
      v = u ∧ r.telegramId = some t ∨ v ≠ u ∧ s.authTg t = some v)
    (hwallet : ∀ w v, s'.authWallet w = some v →
      v = u ∧ (r.walletAddress = w ∧ w ≠ "") ∨ v ≠ u ∧ s.authWallet w = some v)
    (hnormal : r.walletAddress = "" ∨ Normal cfg r.walletAddress) (hkey : ∀ id, r.internalId = some id → id = u) :
    Sound cfg s' where
  telegram t v ht := by
    rcases htg t v ht with ⟨rfl, hrt⟩ | ⟨hne, hold⟩
    · exact ⟨r, hr, hrt⟩
    · rw [hother v hne]
      exact h.telegram t v hold
  wallet w v hw := by
    rcases hwallet w v hw with ⟨rfl, hrw⟩ | ⟨hne, hold⟩
    · exact ⟨r, hr, hrw⟩
    · rw [hother v hne]
      exact h.wallet w v hold
  normal v r' hv := by
    by_cases hne : v = u
    · subst hne
      obtain rfl := Option.some.inj (hr.symm.trans hv)
      exact hnormal
    · exact h.normal v r' ((hother v hne).symm.trans hv)
  key v r' id hv hid := by
    by_cases hne : v = u
    · subst hne
      obtain rfl := Option.some.inj (hr.symm.trans hv)
      exact hkey id hid
    · exact h.key v r' id ((hother v hne).symm.trans hv) hid

theorem hash_eq (hr : s.users u = some r) : s.hash u = r := by
  simp [Store.hash, hr]

/-- The entries of an account whose hash keeps the credential. -/
theorem Sound.keep_telegram (h : Sound cfg s) (hr : r.telegramId = (s.hash u).telegramId) (t : Int) (v : String) (ht : s.authTg t = some v) :
    v = u ∧ r.telegramId = some t ∨ v ≠ u ∧ s.authTg t = some v := by
  by_cases hv : v = u
  · subst hv
    obtain ⟨r₀, hr₀, hrt⟩ := h.telegram t v ht
    exact .inl ⟨rfl, by rw [hr, hash_eq hr₀, hrt]⟩
  · exact .inr ⟨hv, ht⟩

theorem Sound.keep_wallet (h : Sound cfg s) (hr : r.walletAddress = (s.hash u).walletAddress) (w : String) (v : String)
    (hw : s.authWallet w = some v) :
    v = u ∧ (r.walletAddress = w ∧ w ≠ "") ∨ v ≠ u ∧ s.authWallet w = some v := by
  by_cases hv : v = u
  · subst hv
    obtain ⟨r₀, hr₀, hrw, hne⟩ := h.wallet w v hw
    exact .inl ⟨rfl, by rw [hr, hash_eq hr₀, hrw], hne⟩
  · exact .inr ⟨hv, hw⟩

/-- One credential is written in the mapping and in the hash. -/
theorem update_cases {κ : Type} [DecidableEq κ] {auth : κ → Option String} {P : κ → Prop}
    {k : κ} (hk : P k) (honly : ∀ k', auth k' = some u → k' = k) (k' : κ) (v : String)
    (hv : Function.update auth k (some u) k' = some v) :
    v = u ∧ P k' ∨ v ≠ u ∧ auth k' = some v := by
  by_cases hne : k' = k
  · subst hne
    rw [Function.update_self] at hv
    exact .inl ⟨(Option.some.inj hv).symm, hk⟩
  · rw [Function.update_of_ne hne] at hv
    refine .inr ⟨?_, hv⟩
    rintro rfl
    exact hne (honly k' hv)

/-- One credential is deleted from the mapping and from the hash. -/
theorem delete_cases {κ : Type} [DecidableEq κ] {auth : κ → Option String} {P : κ → Prop}
    {k : κ} (honly : ∀ k', auth k' = some u → k' = k) (k' : κ) (v : String)
    (hv : Function.update auth k none k' = some v) :
    v = u ∧ P k' ∨ v ≠ u ∧ auth k' = some v := by
  by_cases hne : k' = k
  · subst hne
    simp at hv
  · rw [Function.update_of_ne hne] at hv
    refine .inr ⟨?_, hv⟩
    rintro rfl
    exact hne (honly k' hv)

/-! ## The writes -/

theorem Normal.ne_empty {w : String} (h : Normal cfg w) : w ≠ "" := by
  rintro rfl
  cases h.named

theorem Sound.normal_hash (h : Sound cfg s) (u : String) :
    (s.hash u).walletAddress = "" ∨ Normal cfg (s.hash u).walletAddress := by
  unfold Store.hash
  cases hr : s.users u with
  | none => exact .inl rfl
  | some r => exact h.normal u r hr

theorem Sound.key_hash (h : Sound cfg s) {id : String}
    (hid : (s.hash u).internalId = some id) : id = u := by
  unfold Store.hash at hid
  cases hr : s.users u with
  | none =>
      rw [hr] at hid
      cases hid
  | some r =>
      rw [hr] at hid
      exact h.key u r id hr hid

theorem Sound.linkWallet (h : Sound cfg s) {w : String}
    (honly : ∀ w', s.authWallet w' = some u → w' = w) (hnormal : Normal cfg w) :
    Sound cfg (Store.exec (.putWalletAddress u w) (Store.exec (.setAuthWallet w u) s)) := by
  exact h.rewrite (u := u) (r := { s.hash u with walletAddress := w })
    (fun v hv => Function.update_of_ne hv ..) (Function.update_self ..)
    (h.keep_telegram rfl) (update_cases ⟨rfl, hnormal.ne_empty⟩ honly) (.inr hnormal)
    fun id hid => h.key_hash hid

theorem Sound.linkTelegram (h : Sound cfg s) {t : Int}
    (honly : ∀ t', s.authTg t' = some u → t' = t) :
    Sound cfg (Store.exec (.putTelegramId u (some t)) (Store.exec (.setAuthTg t u) s)) := by
  exact h.rewrite (u := u) (r := { s.hash u with telegramId := some t })
    (fun v hv => Function.update_of_ne hv ..) (Function.update_self ..)
    (update_cases rfl honly) (h.keep_wallet rfl) (h.normal_hash u) fun id hid => h.key_hash hid

theorem Sound.unlinkWallet (h : Sound cfg s) {w : String}
    (honly : ∀ w', s.authWallet w' = some u → w' = w) :
    Sound cfg (Store.exec (.putWalletAddress u "") (Store.exec (.deleteAuthWallet w) s)) := by
  exact h.rewrite (u := u) (r := { s.hash u with walletAddress := "" })
    (fun v hv => Function.update_of_ne hv ..) (Function.update_self ..)
    (h.keep_telegram rfl) (delete_cases honly) (.inl rfl) fun id hid => h.key_hash hid

theorem Sound.unlinkTelegram (h : Sound cfg s) {t : Int}
    (honly : ∀ t', s.authTg t' = some u → t' = t) :
    Sound cfg (Store.exec (.putTelegramId u none) (Store.exec (.deleteAuthTg t) s)) := by
  exact h.rewrite (u := u) (r := { s.hash u with telegramId := none })
    (fun v hv => Function.update_of_ne hv ..) (Function.update_self ..)
    (delete_cases honly) (h.keep_wallet rfl) (h.normal_hash u) fun id hid => h.key_hash hid

theorem Sound.switchWallet (h : Sound cfg s) {c : String}
    (hnormal : Normal cfg c) : Sound cfg (Store.exec (.switchWallet u c) s) := by
  unfold Store.exec
  dsimp only
  split
  · refine h.rewrite (u := u) (r := { s.hash u with walletAddress := c })
      (fun v hv => Function.update_of_ne hv ..) (Function.update_self ..)
      (h.keep_telegram rfl) (fun w v hw => ?_) (.inr hnormal) fun id hid => ?_
    · by_cases hwc : w = c
      · subst hwc
        simp only [Function.update_self] at hw
        exact .inl ⟨(Option.some.inj hw).symm, rfl, hnormal.ne_empty⟩
      · simp only [Function.update_of_ne hwc] at hw
        -- the entry of the wallet in the hash is gone
        refine (delete_cases (P := fun w => c = w ∧ w ≠ "") (fun w' hw' => ?_) w v hw)
        obtain ⟨r, hr, hrw, -⟩ := h.wallet w' u hw'
        simp [hr, hrw]
    · exact h.key_hash hid
  · exact h

/-- The store after `save`. -/
def Store.saved (cfg : Platform) (user : UnifiedUser) (s : Store) : Store where
  users := Function.update s.users user.internalId (some (toHash cfg user))
  authTg := user.telegramId.elim s.authTg fun t =>
    Function.update s.authTg t (some user.internalId)
  authWallet := (user.walletAddress.filter (!isBlank ·)).elim s.authWallet fun w =>
    Function.update s.authWallet (normalizeWallet cfg (some w)) (some user.internalId)

theorem save_wp {user : UnifiedUser} {Q : Unit → Store → Prop} {E : Store → Prop} :
    (save cfg user).wp Store.exec Q E s ↔ Q () (s.saved cfg user) := by
  simp only [save, wp_bind, wp_write, saveAuthTg, saveAuthWallet, Store.saved]
  cases user.telegramId with
  | none =>
      cases user.walletAddress.filter (!isBlank ·) with
      | none => exact Iff.rfl
      | some w => exact Iff.rfl
  | some t =>
      cases user.walletAddress.filter (!isBlank ·) with
      | none => exact Iff.rfl
      | some w => exact Iff.rfl

theorem Sound.saved (h : Sound cfg s) {user : UnifiedUser}
    (htg : ∀ t, s.authTg t = some user.internalId → user.telegramId = some t)
    (hwallet : ∀ w, s.authWallet w = some user.internalId →
      normalizeWallet cfg user.walletAddress = w)
    (hnormal : ∀ w, user.walletAddress = some w → Normal cfg w) :
    Sound cfg (s.saved cfg user) := by
  refine h.rewrite (u := user.internalId) (r := toHash cfg user)
    (fun v hv => Function.update_of_ne hv ..) (Function.update_self ..)
    (fun t v ht => ?_) (fun w v hw => ?_) ?_ fun id hid => (Option.some.inj hid).symm
  · dsimp only [Store.saved] at ht
    cases hu : user.telegramId with
    | none =>
        rw [hu] at ht
        refine .inr ⟨?_, ht⟩
        rintro rfl
        simp [htg t ht] at hu
    | some t₀ =>
        rw [hu] at ht
        exact update_cases (P := fun t => (toHash cfg user).telegramId = some t) hu
          (fun t' ht' => Option.some.inj ((htg t' ht').symm.trans hu)) t v ht
  · dsimp only [Store.saved] at hw
    cases hu : user.walletAddress with
    | none =>
        rw [hu] at hw
        by_cases hv : v = user.internalId
        · subst hv
          obtain ⟨-, -, -, hne⟩ := h.wallet w _ hw
          exact .inl ⟨rfl, hwallet w hw, hne⟩
        · exact .inr ⟨hv, hw⟩
    | some w₀ =>
        obtain ⟨hblank, hsame⟩ := hnormal w₀ hu
        rw [hu] at hw
        simp only [Option.filter, hblank, Bool.not_false, if_true, Option.elim_some, hsame] at hw
        refine update_cases (P := fun w => (toHash cfg user).walletAddress = w ∧ w ≠ "") ⟨?_, ?_⟩
          (fun w' hw' => ?_) w v hw
        · show normalizeWallet cfg user.walletAddress = w₀
          rw [hu, hsame]
        · exact (hnormal w₀ hu).ne_empty
        · rw [← hwallet w' hw', hu, hsame]
  · show normalizeWallet cfg user.walletAddress = "" ∨
      Normal cfg (normalizeWallet cfg user.walletAddress)
    cases hu : user.walletAddress with
    | none => exact .inl rfl
    | some w =>
        rw [(hnormal w hu).same]
        exact .inr (hnormal w hu)

/-! ## The operations -/

theorem parse_eq_some {user : UnifiedUser} (h : r.parse = some user) :
    r.internalId = some user.internalId ∧ user.telegramId = r.telegramId
      ∧ user.walletAddress = if isBlank r.walletAddress then none else some r.walletAddress := by
  unfold UserHash.parse at h
  split at h
  · rename_i id kind hid hkind
    obtain rfl := Option.some.inj h
    exact ⟨hid, rfl, rfl⟩
  · cases h

section Operations

variable {user : UnifiedUser}

/-- The wallet that `findById` returns. -/
theorem Sound.wallet_of_parse (h : Sound cfg s) (hr : s.users u = some r)
    (hp : r.parse = some user) :
    normalizeWallet cfg user.walletAddress = r.walletAddress
      ∧ ∀ w, user.walletAddress = some w → Normal cfg w := by
  obtain ⟨-, -, hw⟩ := parse_eq_some hp
  rcases h.normal u r hr with hempty | ⟨hblank, hsame⟩
  · rw [hempty] at hw
    refine ⟨by rw [hw, hempty]; rfl, fun w hsome => ?_⟩
    rw [hw] at hsome
    cases hsome
  · rw [hblank] at hw
    refine ⟨by rw [hw]; exact hsame, fun w hsome => ?_⟩
    obtain rfl := Option.some.inj (hw.symm.trans hsome)
    exact ⟨hblank, hsame⟩

/-- An account keeps its credentials when its profile is saved back. -/
theorem Sound.merged (h : Sound cfg s) {t : Int} {data : TelegramUser} (ht : data.id = t)
    (hr : s.users u = some r) (hrt : r.telegramId = some t) (hp : r.parse = some user) :
    Sound cfg (s.saved cfg (mergeTelegramProfile user data)) := by
  obtain ⟨hid, -, -⟩ := parse_eq_some hp
  obtain rfl := h.key u r _ hr hid
  obtain ⟨hw, hnormal⟩ := h.wallet_of_parse hr hp
  refine h.saved (fun t' ht' => ?_) (fun w hw' => ?_) hnormal
  · rw [← h.telegram_eq hr ht', hrt]
    exact congrArg some ht
  · rw [← h.wallet_eq hr hw']
    exact hw

theorem telegramSignIn_sound (h : Sound cfg s) {data : TelegramUser}
    (hcareful : Careful cfg s (.telegramSignIn data)) :
    (resolveTelegramUser cfg data).wp Store.exec (fun _ => Sound cfg) (· = s) s := by
  simp only [resolveTelegramUser, findByTelegramId, wp_bind, wp_ask]
  cases ht : s.authTg data.id with
  | none =>
      obtain ⟨hno, hnone⟩ := hcareful ht
      simp only [findOwner, wp_done, wp_bind, pure_eq, save_wp]
      exact h.saved (fun t ht => absurd ht (hno t)) (fun w hw => absurd hw (hnone w))
        fun w hw => by cases hw
  | some owner =>
      obtain ⟨r, hr, hrt⟩ := h.telegram _ _ ht
      refine findById_wp (fun hnone => ?_) (fun r' user hr' hp => ?_) rfl
      · rw [hr] at hnone
        cases hnone
      · obtain rfl := Option.some.inj (hr.symm.trans hr')
        simp only [wp_bind, pure_eq, wp_done, save_wp]
        exact h.merged rfl hr hrt hp

theorem walletSignIn_sound (hcfg : cfg.Lawful) (h : Sound cfg s) {wallet : Option String}
    {uuid : String} (hfresh : s.users uuid = none) :
    (findOrCreateByWallet cfg wallet uuid).wp Store.exec (fun _ => Sound cfg) (· = s) s := by
  simp only [findOrCreateByWallet, wp_ite, wp_fail]
  refine ⟨fun _ => trivial, fun hblank => ?_⟩
  simp only [findByWalletAddress, wp_bind, wp_ask]
  have hnormal : normalizeWallet cfg (some (normalizeWallet cfg wallet))
      = normalizeWallet cfg wallet := by
    cases wallet with
    | none => exact absurd rfl hblank
    | some w => exact hcfg.normal w
  have hcreate : (createWalletUser cfg (normalizeWallet cfg wallet) uuid).wp Store.exec
      (fun _ => Sound cfg) (· = s) s := by
    simp only [createWalletUser, wp_bind, save_wp, pure_eq, wp_done]
    refine h.saved (fun t ht => ?_) (fun w hw => ?_) fun w hw => ?_
    · obtain ⟨r, hr, -⟩ := h.telegram t uuid ht
      rw [hfresh] at hr
      cases hr
    · obtain ⟨r, hr, -⟩ := h.wallet w uuid hw
      rw [hfresh] at hr
      cases hr
    · obtain rfl := Option.some.inj hw
      exact ⟨by simpa using hblank, hnormal⟩
  rw [hnormal]
  cases hw : s.authWallet (normalizeWallet cfg wallet) with
  | none => exact hcreate
  | some owner =>
      refine findById_wp (fun hnone => ?_) (fun r user _ _ => ?_) rfl
      · exact hcreate
      · exact h

theorem bindUnmappedWallet_sound (h : Sound cfg s) {w : String} (hnormal : Normal cfg w) :
    (bindUnmappedWallet cfg u w).wp Store.exec (fun _ => Sound cfg) (· = s) s := by
  simp only [bindUnmappedWallet, wp_bind]
  refine findById_wp (fun _ => by simp) (fun r user hr hp => ?_) rfl
  simp only [wp_bind, wp_found, wp_ite, wp_fail]
  refine ⟨fun a ha => ?_, fun hnone => by cases hnone⟩
  obtain rfl := Option.some.inj ha
  refine ⟨fun _ => trivial, fun hother => ?_⟩
  simp only [applyWalletLink, wp_bind, wp_write]
  refine h.linkWallet (fun w' hw' => ?_) hnormal
  -- a wallet that is linked already is this one
  obtain ⟨hwallet, hold⟩ := h.wallet_of_parse hr hp
  have hw₀ := h.wallet_eq hr hw'
  cases hu : user.walletAddress with
  | none =>
      rw [hu] at hwallet
      obtain ⟨-, -, -, hne⟩ := h.wallet w' u hw'
      exact absurd (hw₀.symm.trans hwallet.symm) hne
  | some w₀ =>
      obtain ⟨hb, hn⟩ := hold w₀ hu
      rw [hu, hn] at hwallet
      simp only [hu, Option.any_some, hb, hn, Bool.not_false, Bool.true_and,
        decide_eq_true_eq, ne_eq, not_not] at hother
      rw [← hw₀, ← hwallet, hother]

/-- A link that is refreshed is as it was. -/
theorem refresh_eq {w : String} (hr : s.users u = some r) (hrw : r.walletAddress = w)
    (hw : s.authWallet w = some u) :
    Store.exec (.putWalletAddress u w) (Store.exec (.setAuthWallet w u) s) = s := by
  have husers : Function.update s.users u (some { r with walletAddress := w }) = s.users := by
    rw [← hrw]
    exact Function.update_eq_self_iff.mpr hr.symm
  have hauth : Function.update s.authWallet w (some u) = s.authWallet :=
    Function.update_eq_self_iff.mpr hw.symm
  simp only [Store.exec, Store.put, hr, Option.getD_some, husers, hauth]

theorem linkWallet_sound (hcfg : cfg.Lawful) (h : Sound cfg s) {wallet : Option String} :
    (linkWallet cfg u wallet).wp Store.exec (fun _ => Sound cfg) (· = s) s := by
  simp only [linkWallet, wp_ite, wp_fail]
  refine ⟨fun _ => trivial, fun hblank => ⟨fun _ => trivial, fun _ => ?_⟩⟩
  simp only [findByWalletAddress, wp_bind, wp_ask]
  have hsame : normalizeWallet cfg (some (normalizeWallet cfg wallet))
      = normalizeWallet cfg wallet := by
    cases wallet with
    | none => exact absurd rfl hblank
    | some w => exact hcfg.normal w
  have hnormal : Normal cfg (normalizeWallet cfg wallet) := ⟨by simpa using hblank, hsame⟩
  rw [hsame]
  cases hw : s.authWallet (normalizeWallet cfg wallet) with
  | some owner =>
      simp only [wp_ite, wp_fail]
      refine ⟨?_, fun _ => trivial⟩
      rintro rfl
      obtain ⟨r, hr, hrw, -⟩ := h.wallet _ u hw
      simp only [refreshWalletLink, wp_bind, wp_write, refresh_eq hr hrw hw]
      exact bindUnmappedWallet_sound h hnormal
  | none => exact bindUnmappedWallet_sound h hnormal

theorem linkTelegram_sound (h : Sound cfg s) {telegramId : Option Int}
    (hcareful : Careful cfg s (.linkTelegram u telegramId)) :
    (linkTelegram u telegramId).wp Store.exec (fun _ => Sound cfg) (· = s) s := by
  cases telegramId with
  | none => exact rfl
  | some t =>
      simp only [linkTelegram, wp_ite, wp_fail]
      refine ⟨fun _ => trivial, fun _ => ?_⟩
      simp only [findByTelegramId, wp_bind, wp_ask]
      cases ht : s.authTg t with
      | some owner =>
          simp only [resolveExistingTelegramOwner, wp_ite]
          refine ⟨?_, fun hne => ?_⟩
          · rintro rfl
            simp only [refreshTelegramLink, wp_bind, wp_write]
            exact h.linkTelegram fun t' ht' => (h.leadsHome).oneTelegram _ _ u ht' ht
          · simp only [absorbWalletLessTelegramStub, wp_bind]
            refine findById_wp (fun _ => by simp) (fun r user hr hp => ?_) rfl
            simp only [wp_bind, wp_found, wp_ite, wp_fail]
            refine ⟨fun a ha => ?_, fun hnone => by cases hnone⟩
            obtain rfl := Option.some.inj ha
            refine ⟨fun _ => trivial, fun hwallet => ?_⟩
            simp only [applyTelegramLink, wp_bind, wp_write]
            have hblank : isBlank r.walletAddress = true := by
              obtain ⟨-, -, hw⟩ := parse_eq_some hp
              by_contra hb
              rw [if_neg hb] at hw
              simp [hw, hb] at hwallet
            have hno := hcareful ⟨owner, r, ht, Ne.symm hne, hr, hblank⟩
            exact h.linkTelegram fun t' ht' => absurd ht' (hno t')
      | none =>
          simp only [bindUnmappedTelegram, wp_bind]
          refine findById_wp (fun _ => by simp) (fun r user hr hp => ?_) rfl
          simp only [wp_bind, wp_found]
          refine ⟨fun a ha => ?_, fun hnone => by cases hnone⟩
          obtain rfl := Option.some.inj ha
          obtain ⟨-, htg, -⟩ := parse_eq_some hp
          have honly : ∀ t', s.authTg t' = some u → user.telegramId = some t' :=
            fun t' ht' => htg.trans (h.telegram_eq hr ht')
          cases hu : user.telegramId with
          | none =>
              simp only [applyTelegramLink, wp_bind, wp_write]
              refine h.linkTelegram fun t' ht' => ?_
              have hsome := honly t' ht'
              rw [hu] at hsome
              cases hsome
          | some t₀ =>
              simp only [wp_ite, wp_fail]
              refine ⟨fun _ => trivial, fun heq => ?_⟩
              simp only [refreshTelegramLink, wp_bind, wp_write]
              refine h.linkTelegram fun t' ht' => ?_
              have hsome := honly t' ht'
              rw [hu] at hsome
              exact (Option.some.inj hsome).symm.trans (not_not.mp heq)

theorem switchWallet_sound (hcfg : cfg.Lawful) (h : Sound cfg s) {wallet : Option String} :
    (switchWallet cfg u wallet).wp Store.exec (fun _ => Sound cfg) (· = s) s := by
  simp only [switchWallet, wp_ite, wp_fail]
  refine ⟨fun _ => trivial, fun _ => ?_⟩
  unfold canonicalWalletRaw
  cases wallet.filter (!isBlank ·) with
  | none => exact rfl
  | some w =>
      dsimp only
      cases hraw : cfg.toRaw (trim w) with
      | none => exact rfl
      | some c =>
          simp only [wp_bind, wp_call]
          have hsound := h.switchWallet (u := u) ⟨(hcfg.raw _ c hraw).1, (hcfg.raw _ c hraw).2⟩
          have hfail : s.switched u c ≠ .ok → Store.exec (.switchWallet u c) s = s := by
            intro hne
            unfold Store.exec
            dsimp only
            split
            · contradiction
            · rfl
          cases hs : s.switched u c with
          | ok => exact hsound
          | conflict => exact hfail (by simp [hs])
          | noWallet => exact hfail (by simp [hs])

theorem unlinkWallet_sound (h : Sound cfg s) :
    (unlinkWallet cfg u).wp Store.exec (fun _ => Sound cfg) (· = s) s := by
  simp only [unlinkWallet, wp_bind]
  refine findById_wp (fun _ => by simp) (fun r user hr hp => ?_) rfl
  simp only [wp_bind, wp_found, wp_demand, wp_write]
  refine ⟨fun a ha => ⟨fun _ => ⟨fun w hw => ?_, fun _ => trivial⟩, fun _ => trivial⟩,
    fun hnone => by cases hnone⟩
  obtain rfl := Option.some.inj ha
  obtain ⟨hu, -⟩ := Option.filter_eq_some_iff.mp hw
  obtain ⟨hwallet, -⟩ := h.wallet_of_parse hr hp
  rw [hu] at hwallet
  exact h.unlinkWallet fun w' hw' => (h.wallet_eq hr hw').symm.trans hwallet.symm

theorem unlinkTelegram_sound (h : Sound cfg s) :
    (unlinkTelegram u).wp Store.exec (fun _ => Sound cfg) (· = s) s := by
  simp only [unlinkTelegram, wp_bind]
  refine findById_wp (fun _ => by simp) (fun r user hr hp => ?_) rfl
  simp only [wp_bind, wp_found, wp_demand, wp_write]
  refine ⟨fun a ha => ⟨fun _ => ⟨fun t ht => ?_, fun _ => trivial⟩, fun _ => trivial⟩,
    fun hnone => by cases hnone⟩
  obtain rfl := Option.some.inj ha
  obtain ⟨-, htg, -⟩ := parse_eq_some hp
  refine h.unlinkTelegram fun t' ht' => ?_
  have hsome := h.telegram_eq hr ht'
  rw [← htg, ht] at hsome
  exact (Option.some.inj hsome).symm

end Operations

/-! ## Whole runs -/

theorem program_sound (hcfg : cfg.Lawful) (h : Sound cfg s) {op : Op} (hfresh : Fresh s op)
    (hcareful : Careful cfg s op) :
    (op.program cfg).wp Store.exec (fun _ => Sound cfg) (· = s) s := by
  cases op with
  | telegramSignIn data => exact wp_seq (telegramSignIn_sound h hcareful) fun _ _ h => h
  | walletSignIn wallet uuid => exact wp_seq (walletSignIn_sound hcfg h hfresh) fun _ _ h => h
  | linkWallet u wallet => exact linkWallet_sound hcfg h
  | linkTelegram u telegramId => exact linkTelegram_sound h hcareful
  | switchWallet u wallet => exact switchWallet_sound hcfg h
  | unlinkWallet u => exact unlinkWallet_sound h
  | unlinkTelegram u => exact unlinkTelegram_sound h

/-- An operation that returns an error leaves everything unchanged. -/
def Unchanged (h : List (Record Op Store Unit)) : Prop :=
  ∀ e ∈ h, ∀ error, e.result = .error error → e.after = e.before

/-- If no account absorbs a second Telegram account, and no sign-in writes over
an account that an entry leads to, then every credential leads to its account. -/
theorem credentials_lead_home (hcfg : cfg.Lawful) {h : List (Record Op Store Unit)}
    (hrun : Serial Store.exec (Op.program cfg) (fun s op => Fresh s op ∧ Careful cfg s op)
      (fun _ _ => False) .empty h s) : LeadsHome s ∧ Unchanged h := by
  have hinv : Sound cfg s ∧ Unchanged h := by
    refine hrun.invariant (I := fun h s => Sound cfg s ∧ Unchanged h)
      ⟨sound_empty, fun e he => by cases he⟩ (fun h s op hs hg => ?_) fun _ _ _ _ hm => hm.elim
    refine wp_mono (program_sound hcfg hs.1 hg.1 hg.2) (fun _ s' hs' => ⟨hs', ?_⟩) ?_
    · intro e he error herror
      rcases List.mem_cons.mp he with rfl | he
      · cases herror
      · exact hs.2 e he error herror
    · rintro _ rfl error
      refine ⟨hs.1, fun e he error' herror => ?_⟩
      rcases List.mem_cons.mp he with rfl | he
      · rfl
      · exact hs.2 e he error' herror
  exact ⟨hinv.1.leadsHome, hinv.2⟩

/-! ## ASCII -/

theorem trim_eq (s : String) : trim s
    = String.ofList ((s.toList.dropWhile (·.toNat ≤ 32)).rdropWhile (·.toNat ≤ 32)) := rfl

/-- What is dropped at both ends is dropped once. -/
theorem dropWhile_rdropWhile {α : Type} (p : α → Bool) (l : List α) :
    ((l.dropWhile p).rdropWhile p).dropWhile p = (l.dropWhile p).rdropWhile p := by
  rw [List.dropWhile_eq_self_iff]
  intro hl
  have hne : (l.dropWhile p).rdropWhile p ≠ [] := List.ne_nil_of_length_pos hl
  have hhead := (List.rdropWhile_prefix p (l.dropWhile p)).head hne
  rw [List.getElem_zero, hhead]
  simp [List.head_dropWhile_not p]

theorem trim_trim (s : String) : trim (trim s) = trim s := by
  rw [trim_eq (trim s), trim_eq s, String.toList_ofList, dropWhile_rdropWhile,
    List.rdropWhile_idempotent]

def lower (s : String) : String := String.ofList (s.toList.map Char.toLower)

/-- A capital letter becomes a small one, and nothing else changes. -/
theorem toLower_cases (c : Char) :
    c.toLower = c ∧ ¬ (65 ≤ c.toNat ∧ c.toNat ≤ 90)
      ∨ c.toLower.toNat = c.toNat + 32 ∧ 65 ≤ c.toNat ∧ c.toNat ≤ 90 := by
  unfold Char.toLower
  split
  · rename_i h
    have hle : 65 ≤ c.toNat ∧ c.toNat ≤ 90 := ⟨h.1, h.2⟩
    refine .inr ⟨?_, hle⟩
    show (c.val + ('a'.val - 'A'.val)).toNat = c.toNat + 32
    have h32 : ('a'.val - 'A'.val).toNat = 32 := rfl
    rw [UInt32.toNat_add, h32, Nat.mod_eq_of_lt]
    · rfl
    · have : c.val.toNat = c.toNat := rfl
      omega
  · rename_i h
    exact .inl ⟨rfl, fun h' => h ⟨h'.1, h'.2⟩⟩

theorem toLower_low (c : Char) : decide (c.toLower.toNat ≤ 32) = decide (c.toNat ≤ 32) := by
  rcases toLower_cases c with ⟨h, -⟩ | ⟨h, hle⟩
  · rw [h]
  · rw [h]
    simp only [decide_eq_decide]
    omega

theorem toLower_toLower (c : Char) : c.toLower.toLower = c.toLower := by
  rcases toLower_cases c with ⟨h, -⟩ | ⟨h, hle⟩
  · rw [h]
    exact h
  · rcases toLower_cases c.toLower with ⟨h', -⟩ | ⟨-, hle'⟩
    · exact h'
    · omega

theorem lower_lower (s : String) : lower (lower s) = lower s := by
  have hcomp : Char.toLower ∘ Char.toLower = Char.toLower := funext toLower_toLower
  simp [lower, hcomp]

theorem trim_lower (s : String) : trim (lower s) = lower (trim s) := by
  have hp : (fun c : Char => decide (c.toNat ≤ 32)) ∘ Char.toLower
      = fun c => decide (c.toNat ≤ 32) := funext toLower_low
  rw [trim_eq, trim_eq, lower, lower, String.toList_ofList, String.toList_ofList]
  simp only [List.rdropWhile, List.dropWhile_map, ← List.map_reverse, hp]

theorem lower_trim (s : String) : lower (trim (lower (trim s))) = lower (trim s) := by
  rw [trim_lower, trim_trim, lower_lower]

/-- Case folding of ASCII, and addresses that are their own raw form. -/
def ascii : Platform where
  toLowerCase := lower
  forTelegramId t := "tg" ++ toString t
  toRaw a := if isBlank (lower (trim a)) then none else some (lower (trim a))

theorem ascii_normalize (w : String) : normalizeWallet ascii (some w) = lower (trim w) := rfl

theorem ascii_lawful : ascii.Lawful where
  normal w := by
    simp only [ascii_normalize, lower_trim]
  raw a c h := by
    simp only [ascii] at h
    split at h
    · cases h
    · rename_i hblank
      obtain rfl := Option.some.inj h
      exact ⟨by simpa using hblank, by rw [ascii_normalize, lower_trim]⟩

/-! ## A second Telegram account -/

def telegramUser (t : Int) : TelegramUser := ⟨t, some "Ann", none, none, none⟩

def after (ops : List Op) : Store :=
  ops.foldl (fun s op => ((op.program ascii).run Store.exec s).1) .empty

abbrev Runs (G : Store → Op → Prop) (h : List (Record Op Store Unit)) (s : Store) : Prop :=
  Serial Store.exec (Op.program ascii) G (fun _ _ => False) .empty h s

theorem runs_after {G : Store → Op → Prop} (ops : List Op) {op : Op}
    (hrun : ∃ h, Runs G h (after ops)) (hg : G (after ops) op) :
    ∃ h, Runs G h (after (ops ++ [op])) := by
  obtain ⟨h, hrun⟩ := hrun
  have hstep : after (ops ++ [op]) = ((op.program ascii).run Store.exec (after ops)).1 := by
    rw [after, List.foldl_append]
    rfl
  rw [hstep]
  exact ⟨_, hrun.run hg⟩

/-- Ann signs in with Telegram and with her wallet. -/
def signIns : List Op := [.telegramSignIn (telegramUser 1), .walletSignIn (some "EQA") "ann"]

def Guarded (s : Store) (op : Op) : Prop := Fresh s op ∧ Careful ascii s op

theorem signIns_run : ∃ h, Runs Guarded h (after signIns) := by
  have htelegram : Guarded .empty (.telegramSignIn (telegramUser 1)) :=
    ⟨trivial, fun _ => ⟨fun t ht => (by cases ht), fun w hw => (by cases hw)⟩⟩
  have hnone : ((after [.telegramSignIn (telegramUser 1)]).users "ann").isNone = true := by
    decide +kernel
  have hwallet : Guarded (after [.telegramSignIn (telegramUser 1)])
      (.walletSignIn (some "EQA") "ann") := ⟨Option.isNone_iff_eq_none.mp hnone, trivial⟩
  exact runs_after [.telegramSignIn (telegramUser 1)]
    (runs_after [] ⟨[], .nil⟩ htelegram) hwallet

/-- Her wallet account absorbs her Telegram account. -/
theorem ann_linked : ∃ h, Runs Guarded h (after (signIns ++ [.linkTelegram "ann" (some 1)]))
    ∧ (after (signIns ++ [.linkTelegram "ann" (some 1)])).authTg 1 = some "ann"
    ∧ LeadsHome (after (signIns ++ [.linkTelegram "ann" (some 1)])) ∧ Unchanged h := by
  obtain ⟨h₀, hsigned⟩ := signIns_run
  have hhome := (credentials_lead_home ascii_lawful hsigned).1
  have hcareful : Guarded (after signIns) (.linkTelegram "ann" (some 1)) := by
    refine ⟨trivial, fun _ t ht => ?_⟩
    obtain ⟨r, hr, hrt⟩ := hhome.telegram t "ann" ht
    have hnone : ((after signIns).users "ann").all (·.telegramId.isNone) = true := by
      decide +kernel
    rw [hr, Option.all_some, hrt] at hnone
    cases hnone
  obtain ⟨h, hrun⟩ := runs_after _ ⟨h₀, hsigned⟩ hcareful
  obtain ⟨hleads, hsame⟩ := credentials_lead_home ascii_lawful hrun
  exact ⟨h, hrun, by decide +kernel, hleads, hsame⟩

def isFresh (s : Store) : Op → Bool
  | .walletSignIn _ uuid => (s.users uuid).isNone
  | _ => true

theorem fresh_of_isFresh (s : Store) (op : Op) (h : isFresh s op = true) : Fresh s op := by
  cases op with
  | walletSignIn wallet uuid => exact Option.isNone_iff_eq_none.mp h
  | _ => trivial

/-- Then it absorbs another one, and the first still signs in to it. -/
theorem second_telegram_absorbed : ¬ ∀ (h : List (Record Op Store Unit)) (s : Store),
    Runs Fresh h s → LeadsHome s ∧ Unchanged h := by
  intro hall
  obtain ⟨h, s, hrun, hs⟩ : ∃ h s, Runs Fresh h s
      ∧ decide (s.authTg 1 = some "ann" ∧ s.authTg 2 = some "ann") = true :=
    Serial.exists_of_execAll isFresh
      (signIns ++ [.linkTelegram "ann" (some 1), .telegramSignIn (telegramUser 2),
        .linkTelegram "ann" (some 2)])
      (fun _ s => decide (s.authTg 1 = some "ann" ∧ s.authTg 2 = some "ann"))
      fresh_of_isFresh (by decide +kernel)
  have hs := of_decide_eq_true hs
  exact absurd ((hall h s hrun).1.oneTelegram 1 2 "ann" hs.1 hs.2) (by decide)

end Identity

end BurnedChats
