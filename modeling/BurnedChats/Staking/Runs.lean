import BurnedChats.Bootstrap
import BurnedChats.Staking.Orders

/-!
# Runs of the staking master

The master keeps no history, so statements about what it has done so far are
statements about a log of the run: one entry for each accepted execution. A
property of the master and such a log that every execution preserves (`Did`)
holds throughout every run of every network that contains the master, whatever
the other accounts do (`master_tracks`).
-/

namespace BurnedChats

open Network StakingMaster

variable {D : Deployment} {modelled : Part → Bool} {ordered : Address → Address → Bool} {L : Type}

/-- Logs the accepted executions of the staking master: the context, the state
before, what was handled, the state after and the bodies sent. -/
def masterRecorder (D : Deployment)
    (entry : Ctx → StakingMaster → Body → StakingMaster → List Body → L → L) :
    Machine.Recorder Address Body Gas World L where
  accepted g now m w r l :=
    if m.dst = D.S ∧ m.bounced = false then
      entry (Ctx.of g now m) w.sm (D.opened m.body) r.1.sm (r.2.map (·.body)) l
    else l

theorem bodies_stamp (a : Address) (out : List Msg) :
    (out.map (stamp a)).map (·.body) = out.map (·.body) := by
  simp [List.map_map, Function.comp_def]

/-- An accepted execution anywhere in the network, seen from the master: nothing,
or one of the things the master does. -/
theorem receive_did {g : Gas} {now : Nat} {m : Msg} {w w' : World} {out : List Msg}
    (h : World.receive D g now m w = .ok (w', out)) :
    (¬ (m.dst = D.S ∧ m.bounced = false) ∧ w'.sm = w.sm)
      ∨ (m.dst = D.S ∧ m.bounced = false ∧ ∃ out', out = out'.map (stamp m.dst)
        ∧ Did (Ctx.of g now m) w.sm (D.opened m.body) w'.sm out') := by
  by_cases hd : m.dst = D.S
  · rcases World.receive_sm h hd with ⟨hb, hs, -⟩ | ⟨hb, out', hs, ho⟩
    · exact .inl ⟨by simp [hb], hs⟩
    · exact .inr ⟨hd, hb, out', ho, receive_cases hs⟩
  · exact .inl ⟨fun hn => hd hn.1, (World.receive_framed h).sm hd⟩

theorem master_tracks {entry : Ctx → StakingMaster → Body → StakingMaster → List Body → L → L}
    {G : WorldConf → Action Address Body Gas → Prop} {Q : World → Nat → Gas → Msg → Prop}
    {I : Nat → StakingMaster → L → Prop} (hG : ∀ c a, G c a → Meets Q c a)
    (hwait : ∀ now d s l, I now s l → I (now + d) s l)
    (hdid : ∀ g now m w s' out l, Q w now g m → m.dst = D.S → m.bounced = false →
      Did (Ctx.of g now m) w.sm (D.opened m.body) s' out → I now w.sm l →
      I now s' (entry (Ctx.of g now m) w.sm (D.opened m.body) s' (out.map (·.body)) l)) :
    (network D modelled ordered).Tracks G (masterRecorder D entry)
      fun c l => I c.now c.st.sm l := by
  constructor
  case send => exact fun _ _ _ h _ _ _ => h
  case ok =>
    intro c l i g accept m pre post w' out h hg hm _ _ _ hr
    rcases receive_did hr with ⟨hno, hs⟩ | ⟨hd, hb, out', rfl, hdo⟩
    · change I c.now w'.sm _
      simp only [masterRecorder, if_neg hno, hs]
      exact h
    · simp only [masterRecorder, hd, hb, and_self, if_true, bodies_stamp]
      exact hdid g c.now m c.st w'.sm out' l ((hG c _ hg).at hm) hd hb hdo h
  case error => exact fun _ _ _ _ _ _ _ _ _ h _ _ _ _ _ _ => h
  case outside => exact fun _ _ _ _ _ h _ _ => h
  case returned => exact fun _ _ _ _ _ h _ _ _ => h
  case wait => exact fun c l d h _ => hwait c.now d c.st.sm l h

end BurnedChats
