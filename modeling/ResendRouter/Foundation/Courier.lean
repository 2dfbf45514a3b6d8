import Mathlib.Data.Set.Insert
import Mathlib.Logic.Relation
import Mathlib.Order.Defs.PartialOrder

/-! # What a router of messages is for

A courier, over any type of messages, addressees, contents and clock values. A
message that was offered to it is accepted at most once, with one parcel for
each of its addressees. A parcel may be sent any number of times, and it ends
as delivered, when its addressee has confirmed it, or as expired, when its
deadline has passed.
-/

namespace ResendRouter.Foundation
open Relation

inductive Verdict where
  | pending
  | delivered
  | expired

structure Parcel (ι δ τ : Type*) where
  message : ι
  addressee : δ
  deadline : τ
  verdict : Verdict

def Parcel.settle {ι δ τ : Type*} (p : Parcel ι δ τ) (verdict : Verdict) : Parcel ι δ τ :=
  { p with verdict := verdict }

/-- All that is known of a courier from outside, with the verdicts on its parcels. -/
@[ext] structure Courier (ι δ β τ : Type*) where
  now : τ
  /-- The messages that were offered, each with its content and its addressees. -/
  offered : Set (ι × β × Set δ)
  accepted : Set (ι × β)
  parcels : Set (Parcel ι δ τ)
  /-- The messages whose sender was told that they are accepted. -/
  acknowledged : Set ι
  sent : Set (ι × δ × β)
  confirmed : Set (ι × δ)

namespace Courier
variable {ι δ β τ : Type*}

def start (now : τ) : Courier ι δ β τ := ⟨now, ∅, ∅, ∅, ∅, ∅, ∅⟩

def addressed (id : ι) (targets : Set δ) (deadline : τ) : Set (Parcel ι δ τ) :=
  { p | p.message = id ∧ p.addressee ∈ targets ∧ p.deadline = deadline ∧ p.verdict = .pending }

variable {p : Parcel ι δ τ}

/-- A parcel with another verdict: the other parcels are as before, and each stands for the one
that it was. -/
theorem mem_settled {v : Verdict} {q : Parcel ι δ τ} {ps : Set (Parcel ι δ τ)} (hp : p ∈ ps)
    (hq : q ∈ insert (p.settle v) (ps \ {p})) : ∃ r ∈ ps, q.message = r.message ∧
      q.addressee = r.addressee ∧ q.deadline = r.deadline ∧
      (r = p ∧ q = p.settle v ∨ r ≠ p ∧ q = r) := by
  rcases hq with rfl | ⟨hq, hne⟩
  · exact ⟨p, hp, rfl, rfl, rfl, .inl ⟨rfl, rfl⟩⟩
  · exact ⟨q, hq, rfl, rfl, rfl, .inr ⟨hne, rfl⟩⟩

theorem settled_of_mem {v : Verdict} {r : Parcel ι δ τ} {ps : Set (Parcel ι δ τ)} (hr : r ∈ ps) :
    ∃ q ∈ insert (p.settle v) (ps \ {p}), q.message = r.message ∧ q.addressee = r.addressee ∧
      q.deadline = r.deadline := by
  by_cases h : r = p
  · subst h
    exact ⟨_, Set.mem_insert _ _, rfl, rfl, rfl⟩
  · exact ⟨r, Set.mem_insert_of_mem _ ⟨hr, h⟩, rfl, rfl, rfl⟩

variable [Preorder τ]

inductive Step (s : Courier ι δ β τ) : Courier ι δ β τ → Prop where
  | tick {time} (h : s.now ≤ time) : Step s { s with now := time }
  | offer (message : ι × β × Set δ) : Step s { s with offered := insert message s.offered }
  | accept {id content targets} (deadline : τ) (ho : (id, content, targets) ∈ s.offered)
      (hne : targets.Nonempty) (hnew : ∀ b, (id, b) ∉ s.accepted) :
      Step s { s with
        accepted := insert (id, content) s.accepted
        parcels := s.parcels ∪ addressed id targets deadline }
  | acknowledge {id content} (h : (id, content) ∈ s.accepted) :
      Step s { s with acknowledged := insert id s.acknowledged }
  | send {p : Parcel ι δ τ} {content} (hp : p ∈ s.parcels) (h : (p.message, content) ∈ s.accepted) :
      Step s { s with sent := insert (p.message, p.addressee, content) s.sent }
  | confirm {id d content} (h : (id, d, content) ∈ s.sent) :
      Step s { s with confirmed := insert (id, d) s.confirmed }
  | deliver {p : Parcel ι δ τ} (hp : p ∈ s.parcels) (hpending : p.verdict = .pending)
      (h : (p.message, p.addressee) ∈ s.confirmed) :
      Step s { s with parcels := insert (p.settle .delivered) (s.parcels \ {p}) }
  | expire {p : Parcel ι δ τ} (hp : p ∈ s.parcels) (hpending : p.verdict = .pending)
      (h : p.deadline ≤ s.now) :
      Step s { s with parcels := insert (p.settle .expired) (s.parcels \ {p}) }

abbrev Runs : Courier ι δ β τ → Courier ι δ β τ → Prop := ReflTransGen Step

variable {s t : Courier ι δ β τ}

/-- What a courier promises: every accepted message has exactly one parcel for each of its
addressees, nothing else is sent, and every verdict has its reason. -/
structure Sound (s : Courier ι δ β τ) : Prop where
  content : ∀ id b b', (id, b) ∈ s.accepted → (id, b') ∈ s.accepted → b = b'
  accepted : ∀ p ∈ s.parcels, ∃ b, (p.message, b) ∈ s.accepted
  single : ∀ p ∈ s.parcels, ∀ p' ∈ s.parcels, p.message = p'.message →
    p.addressee = p'.addressee → p = p'
  complete : ∀ id b, (id, b) ∈ s.accepted → ∃ targets deadline, (id, b, targets) ∈ s.offered ∧
    targets.Nonempty ∧ ∀ d, d ∈ targets ↔
      ∃ p ∈ s.parcels, p.message = id ∧ p.addressee = d ∧ p.deadline = deadline
  acknowledged : ∀ id ∈ s.acknowledged, ∃ b, (id, b) ∈ s.accepted
  sent : ∀ id d b, (id, d, b) ∈ s.sent →
    (id, b) ∈ s.accepted ∧ ∃ p ∈ s.parcels, p.message = id ∧ p.addressee = d
  confirmed : ∀ id d, (id, d) ∈ s.confirmed → ∃ b, (id, d, b) ∈ s.sent
  delivered : ∀ p ∈ s.parcels, p.verdict = .delivered → (p.message, p.addressee) ∈ s.confirmed
  expired : ∀ p ∈ s.parcels, p.verdict = .expired → p.deadline ≤ s.now

theorem sound_start (now : τ) : (start now : Courier ι δ β τ).Sound := by
  constructor <;> simp [start]

theorem Sound.settled {v : Verdict} (h : s.Sound) (hp : p ∈ s.parcels)
    (hd : v = .delivered → (p.message, p.addressee) ∈ s.confirmed)
    (he : v = .expired → p.deadline ≤ s.now) :
    Sound { s with parcels := insert (p.settle v) (s.parcels \ {p}) } where
  content := h.content
  accepted q hq := by
    obtain ⟨r, hr, hm, -⟩ := mem_settled hp hq
    rw [hm]
    exact h.accepted r hr
  single q hq q' hq' hm ha := by
    obtain ⟨r, hr, hrm, hra, -, hcase⟩ := mem_settled hp hq
    obtain ⟨r', hr', hrm', hra', -, hcase'⟩ := mem_settled hp hq'
    have hrr : r = r' :=
      h.single r hr r' hr' (hrm ▸ hrm' ▸ hm) (hra ▸ hra' ▸ ha)
    rcases hcase with ⟨rfl, rfl⟩ | ⟨hne, rfl⟩ <;> rcases hcase' with ⟨rfl, rfl⟩ | ⟨hne', rfl⟩
    · rfl
    · exact absurd hrr.symm hne'
    · exact absurd hrr hne
    · exact hrr
  complete id b hb := by
    obtain ⟨targets, deadline, ho, hne, hall⟩ := h.complete id b hb
    refine ⟨targets, deadline, ho, hne, fun d => (hall d).trans ⟨?_, ?_⟩⟩
    · rintro ⟨r, hr, hm, ha, hdl⟩
      obtain ⟨q, hq, hqm, hqa, hqd⟩ := settled_of_mem (p := p) (v := v) hr
      exact ⟨q, hq, hqm.trans hm, hqa.trans ha, hqd.trans hdl⟩
    · rintro ⟨q, hq, hm, ha, hdl⟩
      obtain ⟨r, hr, hrm, hra, hrd, -⟩ := mem_settled hp hq
      exact ⟨r, hr, hrm ▸ hm, hra ▸ ha, hrd ▸ hdl⟩
  acknowledged := h.acknowledged
  sent id d b hs := by
    obtain ⟨hb, r, hr, hm, ha⟩ := h.sent id d b hs
    obtain ⟨q, hq, hqm, hqa, -⟩ := settled_of_mem (p := p) (v := v) hr
    exact ⟨hb, q, hq, hqm.trans hm, hqa.trans ha⟩
  confirmed := h.confirmed
  delivered q hq hv := by
    obtain ⟨r, hr, hm, ha, -, ⟨rfl, rfl⟩ | ⟨-, rfl⟩⟩ := mem_settled hp hq
    · exact hd hv
    · exact h.delivered q hr hv
  expired q hq hv := by
    obtain ⟨r, hr, hm, ha, -, ⟨rfl, rfl⟩ | ⟨-, rfl⟩⟩ := mem_settled hp hq
    · exact he hv
    · exact h.expired q hr hv

theorem Sound.accept {id : ι} {content : β} {targets : Set δ} {deadline : τ} (h : s.Sound)
    (ho : (id, content, targets) ∈ s.offered) (hne : targets.Nonempty)
    (hnew : ∀ b, (id, b) ∉ s.accepted) :
    Sound { s with
      accepted := insert (id, content) s.accepted
      parcels := s.parcels ∪ addressed id targets deadline } := by
  have hother : ∀ p ∈ s.parcels, p.message ≠ id := by
    rintro p hp rfl
    obtain ⟨b, hb⟩ := h.accepted p hp
    exact hnew b hb
  refine ⟨?_, ?_, ?_, ?_, ?_, ?_, h.confirmed, ?_, ?_⟩
  · rintro i b b' (hb | hb) (hb' | hb')
    · rw [(Prod.mk.inj hb).2, (Prod.mk.inj hb').2]
    · exact absurd ((Prod.mk.inj hb).1 ▸ hb') (hnew b')
    · exact absurd ((Prod.mk.inj hb').1 ▸ hb) (hnew b)
    · exact h.content i b b' hb hb'
  · rintro p (hp | ⟨rfl, -⟩)
    · obtain ⟨b, hb⟩ := h.accepted p hp
      exact ⟨b, Set.mem_insert_of_mem _ hb⟩
    · exact ⟨content, Set.mem_insert _ _⟩
  · rintro p (hp | ⟨hm, -, hd, hv⟩) p' (hp' | ⟨hm', -, hd', hv'⟩) hmm ha
    · exact h.single p hp p' hp' hmm ha
    · exact absurd (hmm.trans hm') (hother p hp)
    · exact absurd (hmm.symm.trans hm) (hother p' hp')
    · cases p
      cases p'
      simp_all
  · rintro i b (hb | hb)
    · obtain ⟨rfl, rfl⟩ := Prod.mk.inj hb
      refine ⟨targets, deadline, ho, hne, fun d => ⟨fun hd => ?_, ?_⟩⟩
      · exact ⟨⟨i, d, deadline, .pending⟩, .inr ⟨rfl, hd, rfl, rfl⟩, rfl, rfl, rfl⟩
      · rintro ⟨p, hp | ⟨-, ha, -⟩, hm, rfl, -⟩
        · exact absurd hm (hother p hp)
        · exact ha
    · obtain ⟨targets', deadline', ho', hne', hall⟩ := h.complete i b hb
      refine ⟨targets', deadline', ho', hne', fun d => (hall d).trans ⟨?_, ?_⟩⟩
      · rintro ⟨p, hp, hrest⟩
        exact ⟨p, .inl hp, hrest⟩
      · rintro ⟨p, hp | ⟨hid, -⟩, hm, hrest⟩
        · exact ⟨p, hp, hm, hrest⟩
        · exact absurd ((hid.symm.trans hm) ▸ hb) (hnew b)
  · intro i hi
    obtain ⟨b, hb⟩ := h.acknowledged i hi
    exact ⟨b, Set.mem_insert_of_mem _ hb⟩
  · intro i d b hs
    obtain ⟨hb, p, hp, hrest⟩ := h.sent i d b hs
    exact ⟨Set.mem_insert_of_mem _ hb, p, .inl hp, hrest⟩
  · rintro p (hp | ⟨-, -, -, hv⟩) hdelivered
    · exact h.delivered p hp hdelivered
    · rw [hv] at hdelivered
      cases hdelivered
  · rintro p (hp | ⟨-, -, -, hv⟩) hexpired
    · exact h.expired p hp hexpired
    · rw [hv] at hexpired
      cases hexpired

theorem Sound.step (h : s.Sound) (hst : Step s t) : t.Sound := by
  cases hst with
  | tick hle => exact { h with expired := fun p hp hv => (h.expired p hp hv).trans hle }
  | offer message =>
    refine { h with complete := fun id b hb => ?_ }
    obtain ⟨targets, deadline, ho, hrest⟩ := h.complete id b hb
    exact ⟨targets, deadline, Set.mem_insert_of_mem _ ho, hrest⟩
  | accept deadline ho hne hnew => exact h.accept ho hne hnew
  | acknowledge hb =>
    refine { h with acknowledged := ?_ }
    rintro id (rfl | hid)
    · exact ⟨_, hb⟩
    · exact h.acknowledged id hid
  | @send p content hp hb =>
    refine { h with sent := ?_, confirmed := fun id d hc => ?_ }
    · rintro id d b (hs | hs)
      · simp only [Prod.mk.injEq] at hs
        obtain ⟨rfl, rfl, rfl⟩ := hs
        exact ⟨hb, p, hp, rfl, rfl⟩
      · exact h.sent id d b hs
    · obtain ⟨b, hs⟩ := h.confirmed id d hc
      exact ⟨b, Set.mem_insert_of_mem _ hs⟩
  | @confirm i a content hs =>
    refine { h with
      confirmed := ?_, delivered := fun p hp hv => Set.mem_insert_of_mem _ (h.delivered p hp hv) }
    rintro id d (hc | hc)
    · obtain ⟨rfl, rfl⟩ := Prod.mk.inj hc
      exact ⟨content, hs⟩
    · exact h.confirmed id d hc
  | deliver hp hpending hc => exact h.settled hp (fun _ => hc) nofun
  | expire hp hpending hd => exact h.settled hp nofun fun _ => hd

theorem Runs.tick {time : τ} (h : s.now ≤ time) : Runs s { s with now := time } := .single (.tick h)

theorem Runs.later {time : τ} (h : s.now ≤ time) (hst : Step { s with now := time } t) :
    Runs s t :=
  (Runs.tick h).tail hst

theorem Sound.runs (h : s.Sound) (hst : Runs s t) : t.Sound := by
  induction hst with
  | refl => exact h
  | tail _ hstep ih => exact ih.step hstep

/-- A verdict is final. -/
theorem Step.final (hst : Step s t) (hp : p ∈ s.parcels) (hv : p.verdict ≠ .pending) :
    p ∈ t.parcels := by
  have hkept : ∀ {q v}, q.verdict = .pending →
      p ∈ insert (Parcel.settle q v) (s.parcels \ {q}) := by
    intro q v hq
    refine Set.mem_insert_of_mem _ ⟨hp, ?_⟩
    rintro rfl
    exact hv hq
  cases hst with
  | accept => exact .inl hp
  | deliver _ hpending => exact hkept hpending
  | expire _ hpending => exact hkept hpending
  | _ => exact hp

theorem Runs.final (hst : Runs s t) (hp : p ∈ s.parcels) (hv : p.verdict ≠ .pending) :
    p ∈ t.parcels := by
  induction hst with
  | refl => exact hp
  | tail _ hstep ih => exact hstep.final ih hv

end Courier
end ResendRouter.Foundation
