import ResendRouter.Service.Shutdown
import ResendRouter.Delivery.Progress

/-! # The steps of a worker loop

What one step of a loop can do, and what the fleet sees of it: a phase of the
worker, and what its claim call appends. A loop ends only for a reason, claims
only between its entry into the select and its return, and does not start again.
-/

namespace ResendRouter.Service
open Foundation Program Database Delivery

/-- What the fleet sees of a loop. -/
def LoopStage.phase : LoopStage → Phase
  | .processing batch => .processing batch
  | .stopped => .stopped
  | .aborted => .stopped
  | _ => .polling

def MainStage.isReturned : MainStage → Bool
  | .returned _ => true
  | _ => false

/-- What lets a loop end: the signal, or the end of `main`. -/
def Process.Ending (p : Process) : Prop :=
  p.channel.value = true ∨ p.channel.closed = true ∨ p.main.isReturned = true

inductive Goes (p : Process) : LoopStage → LoopStage → Prop where
  | entered (h : p.channel.value = false) : Goes p .atHead (.selecting false)
  | left (h : p.Ending) : Goes p (.selecting false) .leaving
  | resumed {s} (hs : s = .sleeping ∨ ∃ executed, s = .selecting executed) : Goes p s .atHead

/-- What one step of a loop can do to it and to the world. -/
inductive LoopMove (env : Env) (p : Process) (time : Time) (w : World) (workerId : String)
    (l : Loop) : World → Loop → Prop where
  | ended {v seen} (hs : l.stage.phase = .polling) (h : l.stage = .leaving ∨ p.Ending)
      (hv : w.step env ⟨time, .stop workerId⟩ = some v) :
      LoopMove env p time w workerId l v ⟨.stopped, seen⟩
  | went {v stage seen} (hs : Goes p l.stage stage)
      (hseen : seen = l.seen ∨ stage = .leaving ∨
        p.channel.changed l.seen = some (.ok seen) ∧ p.channel.value = false)
      (hv : w.step env ⟨time, .idle⟩ = some v) : LoopMove env p time w workerId l v ⟨stage, seen⟩
  | claimed {v now skip fate stage} (hs : l.stage = .selecting false)
      (hv : w.step env ⟨time, .claim workerId now skip fate⟩ = some v)
      (hstage : stage = afterClaim workerId v ∨ fate = .lost ∧ stage = .selecting true) :
      LoopMove env p time w workerId l v ⟨stage, l.seen⟩
  | joined {v batch} (hs : l.stage = .processing batch)
      (hv : w.step env ⟨time, .join workerId⟩ = some v) :
      LoopMove env p time w workerId l v ⟨.atHead, l.seen⟩
  | late {u v now skip} (hs : l.stage = .leaving)
      (hu : w.step env ⟨time, .claim workerId now skip .lost⟩ = some u)
      (hv : u.step env ⟨time, .stop workerId⟩ = some v) :
      LoopMove env p time w workerId l v ⟨.stopped, l.seen⟩
  | aborted {v batch} (hs : l.stage = .processing batch) (h : p.main.isReturned = true)
      (hv : w.step env ⟨time, .stop workerId⟩ = some v) :
      LoopMove env p time w workerId l v ⟨.aborted, l.seen⟩

variable {env : Env} {layout : Layout} {time : Time} {u v w : World} {x y workerId : String}
  {l l' : Loop} {p q : Process} {workers : List String} {loops loops' : String → Loop}
  {stage : LoopStage} {now : Time} {skip : List Uuid} {fate : Fate} {channel : Watch Bool}

theorem LoopMove.of_stop (hs : l.stage.phase = .polling) (hend : l.stage = .leaving ∨ p.Ending)
    {l₁ : Loop} (h : l₁.stop env time w workerId = some (v, l')) :
    LoopMove env p time w workerId l v l' := by
  obtain ⟨v', hv, heq⟩ := Option.map_eq_some_iff.mp h
  cases heq
  exact .ended hs hend hv

theorem LoopMove.of_go (hs : Goes p l.stage stage) {l₁ : Loop}
    (hseen : l₁.seen = l.seen ∨ stage = .leaving ∨
      p.channel.changed l.seen = some (.ok l₁.seen) ∧ p.channel.value = false)
    (h : l₁.go env time w stage = some (v, l')) : LoopMove env p time w workerId l v l' := by
  obtain ⟨v', hv, heq⟩ := Option.map_eq_some_iff.mp h
  cases heq
  exact .went hs hseen hv

theorem Loop.change_moves {told : Except Unit ℕ} (ht : p.channel.changed l.seen = some told)
    (h : l.step env p.channel time w workerId .change = some (v, l')) :
    LoopMove env p time w workerId l v l' := by
  have hends : told.toOption = none ∨ p.channel.value = true → p.Ending := by
    rintro (hnone | hvalue)
    · cases told with
      | ok n => cases hnone
      | error => exact .inr (.inl (Watch.changed_eq_error ht))
    · exact .inl hvalue
  -- without a reason to end, the value of the channel is still `false`
  have hresumes : ¬ (told.toOption = none ∨ p.channel.value = true) →
      p.channel.changed l.seen = some (.ok (told.toOption.getD l.seen)) ∧
        p.channel.value = false := by
    rintro hno
    cases told with
    | ok n => exact ⟨ht, Bool.eq_false_iff.mpr fun hvalue => hno (.inr hvalue)⟩
    | error => exact absurd (.inl rfl) hno
  simp only [Loop.step, ht] at h
  split at h
  case h_1 executed hs =>
    split_ifs at h with hend hexecuted
    · exact .of_stop (by rw [hs]; rfl) (.inr (hends hend)) h
    · obtain ⟨v', hv, heq⟩ := Option.map_eq_some_iff.mp h
      cases heq
      obtain rfl : executed = false := Bool.eq_false_iff.mpr hexecuted
      exact .went (hs ▸ .left (hends hend)) (.inr (.inl rfl)) hv
    · exact .of_go (.resumed (.inr ⟨executed, hs⟩)) (.inr (.inr (hresumes hend))) h
  case h_2 hs =>
    split_ifs at h with hend
    · exact .of_stop (by rw [hs]; rfl) (.inr (hends hend)) h
    · exact .of_go (.resumed (.inl hs)) (.inr (.inr (hresumes hend))) h
  case h_3 => cases h

theorem Loop.step_moves {event : LoopEvent}
    (h : l.step env p.channel time w workerId event = some (v, l')) :
    LoopMove env p time w workerId l v l' := by
  cases event with
  | change =>
    cases ht : p.channel.changed l.seen with
    | none => simp [Loop.step, ht] at h
    | some told => exact Loop.change_moves ht h
  | borrow =>
    simp only [Loop.step] at h
    split at h
    case h_2 => cases h
    case h_1 hs =>
      split_ifs at h with hvalue
      · exact .of_stop (by rw [hs]; rfl) (.inr (.inl hvalue)) h
      · exact .of_go (hs ▸ .entered (Bool.eq_false_iff.mpr hvalue)) (.inl rfl) h
  | claim now skip fate =>
    simp only [Loop.step] at h
    split at h
    case h_2 => cases h
    case h_1 hs =>
      obtain ⟨v', hv, heq⟩ := Option.map_eq_some_iff.mp h
      cases heq
      exact .claimed hs hv (.inl rfl)
  | claimUnread now skip =>
    simp only [Loop.step] at h
    split at h
    case h_2 => cases h
    case h_1 hs =>
      obtain ⟨v', hv, heq⟩ := Option.map_eq_some_iff.mp h
      cases heq
      exact .claimed hs hv (.inr ⟨rfl, rfl⟩)
  | wake =>
    simp only [Loop.step] at h
    split at h
    case h_2 => cases h
    case h_1 hs =>
      exact .of_go (.resumed (.inl hs)) (.inl rfl) h
  | join =>
    simp only [Loop.step] at h
    split at h
    case h_2 => cases h
    case h_1 batch hs =>
      obtain ⟨v', hv, heq⟩ := Option.map_eq_some_iff.mp h
      cases heq
      exact .joined hs hv
  | late now skip =>
    simp only [Loop.step] at h
    split at h
    case h_2 => cases h
    case h_1 hs =>
      obtain ⟨⟨u, l₁⟩, hlate, hstop⟩ := Option.bind_eq_some_iff.mp h
      obtain ⟨u', hu, heq⟩ := Option.map_eq_some_iff.mp hlate
      cases heq
      obtain ⟨v', hv, heq⟩ := Option.map_eq_some_iff.mp hstop
      cases heq
      exact .late hs hu hv
  | forget =>
    simp only [Loop.step] at h
    split at h
    case h_2 => cases h
    case h_1 hs =>
      exact .of_stop (by rw [hs]; rfl) (.inl hs) h

theorem Loop.abort_moves (hp : p.main.isReturned = true)
    (h : l.abort env time w workerId = some (v, l')) : LoopMove env p time w workerId l v l' := by
  simp only [Loop.abort] at h
  split at h
  case h_1 batch hs =>
    obtain ⟨v', hv, heq⟩ := Option.map_eq_some_iff.mp h
    cases heq
    exact .aborted hs hp hv
  case h_2 hs =>
    exact .of_go (hs ▸ .left (.inr (.inr hp))) (.inl rfl) h
  case h_6 h1 h2 h3 h4 h5 =>
    obtain ⟨v', hv, heq⟩ := Option.map_eq_some_iff.mp h
    cases heq
    refine .ended ?_ (.inr (.inr (.inr hp))) hv
    cases hs : l.stage with
    | processing batch => exact absurd hs (h1 batch)
    | stopped => exact absurd hs h4
    | aborted => exact absurd hs h5
    | _ => rfl
  all_goals cases h

/-- Between a statement of the loop and its return, another claim may be executed. -/
def LoopStage.mayClaim : LoopStage → Bool
  | .selecting false => true
  | .leaving => true
  | _ => false

theorem Goes.phase {s s' : LoopStage} (h : Goes p s s') :
    s.phase = .polling ∧ s'.phase = .polling := by
  cases h with
  | resumed hs => rcases hs with rfl | ⟨executed, rfl⟩ <;> exact ⟨rfl, rfl⟩
  | _ => exact ⟨rfl, rfl⟩

theorem Goes.mayClaim {s s' : LoopStage} (h : Goes p s s') (hvalue : p.channel.value = true)
    (hs : s'.mayClaim = true) : s.mayClaim = true := by
  cases h with
  | entered hno => simp [hvalue] at hno
  | left => rfl
  | resumed => cases hs

theorem Goes.hasReturned {s s' : LoopStage} (h : Goes p s s') : s.hasReturned = false := by
  cases h with
  | resumed hs => rcases hs with rfl | ⟨executed, rfl⟩ <;> rfl
  | _ => rfl

theorem Goes.reason {s s' : LoopStage} (h : Goes p s s') (hs : s'.hasReturned = true) :
    p.Ending := by
  cases h with
  | left hend => exact hend
  | _ => cases hs

theorem afterClaim_cases (workerId : String) (v : World) :
    afterClaim workerId v = .sleeping ∨ ∃ batch, afterClaim workerId v = .processing batch := by
  simp only [afterClaim]
  split
  case h_1 batch _ => exact .inr ⟨batch, rfl⟩
  case h_2 => exact .inl rfl

theorem phase_afterClaim (h : v.phase workerId ≠ .stopped) :
    (afterClaim workerId v).phase = v.phase workerId := by
  simp only [afterClaim]
  split
  case h_1 batch hb => rw [hb, LoopStage.phase]
  case h_2 hno =>
    cases hp : v.phase workerId with
    | polling => rfl
    | processing batch => exact absurd hp (hno batch)
    | stopped => exact absurd hp h

theorem LoopMove.phase (hm : LoopMove env p time w workerId l v l')
    (hp : w.phase workerId = l.stage.phase) :
    v.phase = Function.update w.phase workerId l'.stage.phase := by
  cases hm with
  | ended hs h hv => rw [step_stop hv]; rfl
  | went hs hseen hv =>
    rw [step_idle hv, hs.phase.2, ← hs.phase.1, ← hp, Function.update_eq_self]
  | @claimed v now skip fate stage hs hv hstage =>
    have hpolling : w.phase workerId = .polling := by rw [hp, hs]; rfl
    rcases step_claim hv with ⟨hphase, -⟩ | ⟨jobs, task, phase, -, -, hphase, htask⟩
    · have hstage' : stage.phase = .polling := by
        rcases hstage with rfl | ⟨-, rfl⟩
        · rw [phase_afterClaim (by rw [hphase, hpolling]; simp), hphase, hpolling]
        · rfl
      rw [hphase, hstage', ← hpolling, Function.update_eq_self]
    · have hself : v.phase workerId = phase := by rw [hphase, Function.update_self]
      have hstage' : stage.phase = phase := by
        rcases hstage with rfl | ⟨rfl, rfl⟩
        · rw [phase_afterClaim, hself]
          rw [hself]
          rcases htask with ⟨-, rfl⟩ | ⟨-, -, rfl⟩ <;> simp
        · rcases htask with ⟨-, rfl⟩ | ⟨hfate, -⟩
          · rfl
          · cases hfate
      rw [hphase, hstage']
  | joined hs hv => rw [step_join hv]; rfl
  | late hs hu hv =>
    rw [step_stop hv]
    rcases step_claim hu with ⟨hphase, -⟩ | ⟨jobs, task, phase, -, -, hphase, -⟩
    · rw [hphase]; rfl
    · rw [hphase, Function.update_idem]; rfl
  | aborted hs h hv => rw [step_stop hv]; rfl

/-- A loop claims while it may, and not a second time. -/
theorem LoopMove.claims (hm : LoopMove env p time w workerId l v l') : v.claims = w.claims ∨
    ∃ (now : Time) (task : Task) (jobs : List ClaimedJob),
      v.claims = w.claims ++ jobs.map (newClaim workerId now task) ∧
      jobs.length ≤ (env.config workerId).deliveryClaimLimit.toNat ∧
      l.stage.mayClaim = true ∧ l'.stage.mayClaim = false ∧
      (l'.stage.hasReturned = true → task = .ended) := by
  cases hm with
  | ended hs h hv => exact .inl (by rw [step_stop hv])
  | went hs hseen hv => exact .inl (by rw [step_idle hv])
  | joined hs hv => exact .inl (by rw [step_join hv])
  | aborted hs h hv => exact .inl (by rw [step_stop hv])
  | @claimed v now skip fate stage hs hv hstage =>
    have hafter : stage.mayClaim = false ∧ stage.hasReturned = false := by
      rcases hstage with rfl | ⟨-, rfl⟩
      · rcases afterClaim_cases workerId v with h | ⟨batch, h⟩ <;> rw [h] <;> exact ⟨rfl, rfl⟩
      · exact ⟨rfl, rfl⟩
    rcases step_claim hv with ⟨-, hsame⟩ | ⟨jobs, task, phase, hclaims, hlength, -, -⟩
    · exact .inl hsame
    · refine .inr ⟨now, task, jobs, hclaims, hlength, by rw [hs]; rfl, hafter.1, fun hret => ?_⟩
      rw [hafter.2] at hret
      cases hret
  | @late u v now skip hs hu hv =>
    rw [step_stop hv]
    rcases step_claim hu with ⟨-, hsame⟩ | ⟨jobs, task, phase, hclaims, hlength, -, htask⟩
    · exact .inl hsame
    · refine .inr ⟨now, task, jobs, hclaims, hlength, by rw [hs]; rfl, rfl, fun _ => ?_⟩
      rcases htask with ⟨rfl, -⟩ | ⟨hfate, -⟩
      · rfl
      · cases hfate

/-- Once the signal is sent, no loop begins to claim. -/
theorem LoopMove.mayClaim (hm : LoopMove env p time w workerId l v l')
    (hvalue : p.channel.value = true) (h : l'.stage.mayClaim = true) :
    l.stage.mayClaim = true := by
  cases hm with
  | went hs => exact hs.mayClaim hvalue h
  | claimed hs => rw [hs]; rfl
  | late hs => rw [hs]; rfl
  | _ => cases h

theorem LoopMove.running (hm : LoopMove env p time w workerId l v l') :
    l.stage ≠ .stopped ∧ l.stage ≠ .aborted := by
  cases hm with
  | ended hs => constructor <;> intro h <;> rw [h] at hs <;> cases hs
  | went hs => constructor <;> intro h <;> rw [h] at hs <;> exact nomatch hs.phase.1
  | claimed hs => simp [hs]
  | joined hs => simp [hs]
  | late hs => simp [hs]
  | aborted hs => simp [hs]

theorem LoopMove.hasReturned (hm : LoopMove env p time w workerId l v l')
    (h : l.stage.hasReturned = true) : l'.stage.hasReturned = true := by
  cases hm with
  | went hs => simp [hs.hasReturned] at h
  | claimed hs => rw [hs] at h; cases h
  | joined hs => rw [hs] at h; cases h
  | aborted hs => rw [hs] at h; cases h
  | _ => rfl

end ResendRouter.Service
