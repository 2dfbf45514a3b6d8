import ResendRouter.Ingest.ExactlyOnce
import ResendRouter.Delivery.Origins
import ResendRouter.Delivery.Verdicts

/-! # The whole service

Every process answers webhooks and runs workers, both with its own
configuration, and the processes share nothing but the database. Handlers and
workers, which have been looked at apart, work on the same tables here, and
their steps interleave.
-/

namespace ResendRouter.Service
open Foundation Program Database Ingest Delivery

variable {svc : Services}

abbrev Deployment (svc : Services) := String → Replica svc

def Deployment.env (D : Deployment svc) : Env :=
  ⟨svc.hmacSha256, fun workerId => (D workerId).config⟩

/-- The workers with the committed tables and the clock, and all requests so far. -/
structure Installation (svc : Services) where
  world : World
  handlers : List (Handler svc)

inductive ServiceAction (svc : Services) where
  | arrive (r : Ingest.Request svc)
  | handler (i : ℕ) (event : HandlerEvent)
  | worker (a : Delivery.Action)

structure ServiceEvent (svc : Services) where
  time : Time
  action : ServiceAction svc

def newlyInserted (h h' : Handler svc) : List Enqueue :=
  if h.inserted.isSome then [] else h'.inserted.toList

namespace Installation

def step (D : Deployment svc) (w : Installation svc) (e : ServiceEvent svc) :
    Option (Installation svc) :=
  match e.action with
  | .arrive r =>
    some ⟨{ w.world with clock := e.time }, w.handlers ++ [⟨r, .received, none, false⟩]⟩
  | .handler i event => match w.handlers[i]? with
    | none => none
    | some h => (h.step (w.handlers.eraseIdx i) w.world.tables event).map fun (t, h') =>
        ⟨{ w.world with
            tables := t, clock := e.time, ingested := w.world.ingested ++ newlyInserted h h' },
          w.handlers.set i h'⟩
  -- events are only inserted by the handlers
  | .worker (.enqueue _) => none
  | .worker a => (w.world.step D.env ⟨e.time, a⟩).map fun v => { w with world := v }

end Installation

def service (D : Deployment svc) : System (Installation svc) (ServiceEvent svc) :=
  ⟨⟨.initial, []⟩, Installation.step D⟩

def ServiceEvent.statementTime (e : ServiceEvent svc) : Option Time :=
  match e.action with
  | .worker a => (⟨e.time, a⟩ : Event).statementTime
  | _ => none

def ServiceEvent.arriving (e : ServiceEvent svc) : Option (Ingest.Request svc) :=
  match e.action with
  | .arrive r => some r
  | _ => none

/-- One clock for all processes. -/
def oneClock : System.Guard (Installation svc) (ServiceEvent svc) := fun w e _ =>
  w.world.clock ≤ e.time ∧ ∀ now ∈ e.statementTime, now ≤ e.time

/-- One clock, and retry windows that the cast to `i64` does not change. -/
def lawful : System.Guard (Installation svc) (ServiceEvent svc) := fun w e w' =>
  oneClock w e w' ∧ ∀ r ∈ e.arriving, (r.replica.config.retryWindowSecs : ℤ) ≤ i64Max

instance (w : Installation svc) (e : ServiceEvent svc) (w' : Installation svc) :
    Decidable (oneClock w e w') := inferInstanceAs (Decidable (_ ∧ _))

instance (w : Installation svc) (e : ServiceEvent svc) (w' : Installation svc) :
    Decidable (lawful w e w') := inferInstanceAs (Decidable (_ ∧ _))

variable {D : Deployment svc} {w w' : Installation svc} {e : ServiceEvent svc} {h h' : Handler svc}
  {q : Enqueue} {i : ℕ} {t t' : Tables} {others : List (Handler svc)}
  {G : System.Guard (Installation svc) (ServiceEvent svc)}

inductive Installation.Moves (D : Deployment svc) (w : Installation svc) :
    ServiceEvent svc → Installation svc → Prop where
  | arrived (time : Time) (r : Ingest.Request svc) :
      Moves D w ⟨time, .arrive r⟩
        ⟨{ w.world with clock := time }, w.handlers ++ [⟨r, .received, none, false⟩]⟩
  | handled {time i event h t h'} (hm : w.handlers[i]? = some h)
      (hs : h.step (w.handlers.eraseIdx i) w.world.tables event = some (t, h')) :
      Moves D w ⟨time, .handler i event⟩
        ⟨{ w.world with
            tables := t, clock := time, ingested := w.world.ingested ++ newlyInserted h h' },
          w.handlers.set i h'⟩
  | worked {time a v} (ha : ∀ q, a ≠ .enqueue q) (hv : w.world.step D.env ⟨time, a⟩ = some v) :
      Moves D w ⟨time, .worker a⟩ { w with world := v }

theorem Installation.step_moves (hw : w.step D e = some w') : w.Moves D e w' := by
  rcases e with ⟨time, action⟩
  cases action with
  | arrive r =>
    cases hw
    exact .arrived time r
  | handler i event =>
    simp only [Installation.step] at hw
    split at hw
    case h_1 => cases hw
    case h_2 h hm =>
      obtain ⟨⟨t, h'⟩, hs, rfl⟩ := Option.map_eq_some_iff.mp hw
      exact .handled hm hs
  | worker a =>
    cases a with
    | enqueue q => cases hw
    | _ =>
      simp only [Installation.step, Option.map_eq_some_iff] at hw
      obtain ⟨v, hv, rfl⟩ := hw
      exact .worked nofun hv

/-- The handlers, with the database calls of the workers. -/
def Installation.intake (w : Installation svc) : Intake svc := ⟨w.world.store, w.handlers⟩

theorem service_refines_intake (hw : (service D).Reachable G w) :
    (Ingest.intake svc).Reachable System.free w.intake := by
  apply hw.simulate Installation.intake rfl
  intro w e w' _ hstep _
  cases Installation.step_moves hstep with
  | arrived time r => exact .single ⟨.arrive r, rfl, trivial⟩
  | @handled time i event h t h' hm hs =>
    refine .single ⟨.handler i event, ?_, trivial⟩
    simp only [Ingest.intake, Intake.step, Installation.intake, hm, World.store, hs,
      Option.map_some]
  | @worked time a v ha hv =>
    obtain ⟨b, hb, hno⟩ := (World.step_moves hv).ledger_step
    refine .single ⟨.worker b, ?_, trivial⟩
    cases b with
    | enqueueEvent q => exact absurd (hno q rfl) (ha q)
    | _ => simp only [Ingest.intake, Intake.step, Installation.intake, ledger] at hb ⊢; rw [hb]; rfl

def pending : Stage → Option Enqueue
  | .begun q => some q
  | .writing q _ => some q
  | _ => none

/-- The retry window of a call is that of the process. -/
def Windowed (h : Handler svc) : Prop :=
  ∀ q, pending h.stage = some q ∨ h.inserted = some q →
    q.retryWindow = h.request.replica.config.retryWindow

theorem check_retryWindow {r : Ingest.Request svc} {now enqueuedAt : Time} {eventRowId : Uuid}
    {jobIds : ℕ → Uuid} (hq : r.check now eventRowId jobIds enqueuedAt = .ok q) :
    q.retryWindow = r.replica.config.retryWindow := by
  simp only [Ingest.Request.check] at hq
  split at hq
  case h_1 => cases hq
  case h_2 =>
    split at hq
    case h_1 => cases hq
    case h_2 =>
      split_ifs at hq
      cases hq
      rfl

theorem step_received {event : HandlerEvent} (hs : h.step others t event = some (t', h'))
    (hr : h.stage = .received) (hp : pending h'.stage = some q) :
    ∃ now eventRowId jobIds enqueuedAt,
      h.request.check now eventRowId jobIds enqueuedAt = .ok q := by
  cases event with
  | check now eventRowId jobIds enqueuedAt =>
    simp only [Handler.step, hr] at hs
    split at hs
    case h_1 =>
      cases hs
      cases hp
    case h_2 q' hq =>
      split at hs
      case h_3 =>
        cases hs
        cases hp
        exact ⟨_, _, _, _, hq⟩
      all_goals
        cases hs
        cases hp
  | cutOff timedOut =>
    simp only [Handler.step, hr] at hs
    cases hs
    cases timedOut <;> cases hp
  | _ => simp [Handler.step, hr] at hs

theorem Windowed.step {event : HandlerEvent} (hw : Windowed h)
    (hs : h.step others t event = some (t', h')) : Windowed h' := by
  intro q hq
  cases Handler.step_moves hs with
  | checked hr =>
    rcases hq with hq | hq
    · obtain ⟨now, eventRowId, jobIds, enqueuedAt, hcheck⟩ := step_received hs hr hq
      exact check_retryWindow hcheck
    · exact hw q (.inr hq)
  | started hb =>
    rcases hq with hq | hq
    · exact hw q (.inl (by rw [hb]; exact hq))
    · exact hw q (.inr hq)
  | conflicted =>
    rcases hq with hq | hq
    · cases hq
    · exact hw q (.inr hq)
  | added hb =>
    rcases hq with hq | hq
    · exact hw q (.inl (by rw [hb]; exact hq))
    · exact hw q (.inr hq)
  | committed hb hn ht hend =>
    refine hw q (.inl ?_)
    rw [hb]
    rcases hq with hq | hq
    · rcases hend with ⟨rfl, -⟩ | ⟨rfl, -⟩ <;> cases hq
    · exact hq
  | acknowledged =>
    rcases hq with hq | hq
    · cases hq
    · exact hw q (.inr hq)
  | ended hend =>
    rcases hq with hq | hq
    · rcases hend with rfl | ⟨status, rfl, -⟩ <;> cases hq
    · exact hw q (.inr hq)

theorem windowed_of_reachable (hw : (service D).Reachable G w) :
    ∀ h ∈ w.handlers, Windowed h := by
  apply hw.invariant
  · simp [service]
  · intro w e w' _ hi hstep _
    cases Installation.step_moves hstep with
    | arrived time r =>
      intro h hh
      rcases List.mem_append.mp hh with hh | hh
      · exact hi h hh
      · rw [List.mem_singleton.mp hh]
        rintro q (hq | hq) <;> cases hq
    | handled hm hs =>
      intro h hh
      rcases List.mem_or_eq_of_mem_set hh with hh | rfl
      · exact hi h hh
      · exact (hi _ (List.mem_of_getElem? hm)).step hs
    | worked => exact hi

/-- An open transaction is the first one of its handler. -/
theorem inserted_eq_none (hi : HandlerInv t h) {n : ℕ} (hs : h.stage = .writing q n) :
    h.inserted = none := by
  cases hcut : h.cutOffAfterCommit with
  | false => exact hi.untouched hcut (by simp [hs]) (by simp [hs])
  | true =>
    rcases hi.cut hcut with hlost | ⟨status, hlost⟩
    · rw [hs] at hlost
      cases hlost
    · rw [hs] at hlost
      cases hlost

theorem handlerMove_keeps (hm : HandlerMove others t h t' h') (hi : HandlerInv t h) :
    h'.request = h.request ∧ ∀ q, h.inserted = some q → h'.inserted = some q := by
  cases hm with
  | committed hs =>
    refine ⟨rfl, fun q hq => ?_⟩
    rw [inserted_eq_none hi hs] at hq
    cases hq
  | _ => exact ⟨rfl, fun q hq => hq⟩

/-- A commit of a handler is, for the workers, an enqueue call. -/
theorem committed_step (hm : HandlerMove others t h t' h') (hi : HandlerInv t h) :
    (t' = t ∧ newlyInserted h h' = []) ∨
      ∃ q, newlyInserted h h' = [q] ∧ h'.inserted = some q ∧ pending h.stage = some q ∧
        Checked h.request q ∧ enqueueEvent t q = ⟨.ok (.inserted q.eventRowId), t'⟩ := by
  cases hm with
  | @committed q n t' stage cut hs hn ht hend =>
    refine .inr ⟨q, ?_, rfl, by rw [hs]; rfl, (hi.writing q n hs).1, enqueueEvent_of_written ht hn⟩
    simp [newlyInserted, inserted_eq_none hi hs]
  | _ =>
    refine .inl ⟨rfl, ?_⟩
    cases hins : h.inserted <;> simp [newlyInserted, Handler.answerWith, hins]

/-- For the workers, a run of the service is a run of the fleet. -/
theorem service_refines_fleet {K : System.Guard World Event} (hw : (service D).Reachable G w)
    (hK : ∀ w e w' a, (service D).Reachable G w → G w e w' → (∀ q, a = .enqueue q →
        ∃ h ∈ w.handlers, q.retryWindow = h.request.replica.config.retryWindow) →
      (∀ now, (⟨e.time, a⟩ : Event).statementTime = some now → e.statementTime = some now) →
      K w.world ⟨e.time, a⟩ w'.world) :
    (fleet D.env).Reachable K w.world := by
  apply hw.simulate Installation.world rfl
  intro w e w' hw hstep hg
  cases Installation.step_moves hstep with
  | arrived time r =>
    exact .single ⟨⟨time, .idle⟩, rfl, hK _ _ _ .idle hw hg nofun nofun⟩
  | @worked time a v ha hv =>
    exact .single ⟨⟨time, a⟩, hv, hK _ _ _ a hw hg (fun q hq => absurd hq (ha q)) fun _ h => h⟩
  | @handled time i event h t h' hm hs =>
    have hmem := List.mem_of_getElem? hm
    have hi := (intakeInv_of_reachable (service_refines_intake hw)).handlers h hmem
    rcases committed_step (Handler.step_moves hs) hi with
      ⟨rfl, hnew⟩ | ⟨q, hnew, -, hp, -, henqueue⟩
    · refine .single ⟨⟨time, .idle⟩, ?_, hK _ _ _ .idle hw hg nofun nofun⟩
      simp only [hnew, List.append_nil]
      rfl
    · refine .single ⟨⟨time, .enqueue q⟩, ?_, hK _ _ _ (.enqueue q) hw hg ?_ nofun⟩
      · simp only [fleet, World.step, World.act, World.enqueue, henqueue, hnew, Option.map_some]
      · rintro _ ⟨⟩
        exact ⟨h, hmem, windowed_of_reachable hw h hmem q (.inl hp)⟩

theorem service_refines_free_fleet (hw : (service D).Reachable G w) :
    (fleet D.env).Reachable System.free w.world :=
  service_refines_fleet hw fun _ _ _ _ _ _ _ _ => trivial

theorem windows_fit (hw : (service D).Reachable lawful w) :
    ∀ h ∈ w.handlers, (h.request.replica.config.retryWindowSecs : ℤ) ≤ i64Max := by
  apply hw.invariant
  · simp [service]
  · intro w e w' hw hi hstep hg
    cases Installation.step_moves hstep with
    | arrived time r =>
      intro h hh
      rcases List.mem_append.mp hh with hh | hh
      · exact hi h hh
      · rw [List.mem_singleton.mp hh]
        exact hg.2 r rfl
    | handled hm hs =>
      intro h hh
      rcases List.mem_or_eq_of_mem_set hh with hh | rfl
      · exact hi h hh
      · have hmem := List.mem_of_getElem? hm
        have hinv := (intakeInv_of_reachable (service_refines_intake hw)).handlers _ hmem
        rw [(handlerMove_keeps (Handler.step_moves hs) hinv).1]
        exact hi _ hmem
    | worked => exact hi

theorem service_refines_clocked_fleet (hw : (service D).Reachable oneClock w) :
    (fleet D.env).Reachable clocked w.world :=
  service_refines_fleet hw fun _ _ _ _ _ hg _ hnow => ⟨hg.1, fun now hn => hg.2 now (hnow now hn)⟩

theorem service_refines_windowed_fleet (hw : (service D).Reachable lawful w) :
    (fleet D.env).Reachable clockedWindows w.world := by
  apply service_refines_fleet hw
  intro w e w' a hw hg hq hnow
  refine ⟨⟨hg.1.1, fun now hn => hg.1.2 now (hnow now hn)⟩, fun q he => ?_⟩
  have ha : a = .enqueue q := by
    cases a with
    | enqueue q' =>
      cases he
      rfl
    | _ => cases he
  obtain ⟨h, hh, hwindow⟩ := hq q ha
  have hfit := windows_fit hw h hh
  rw [hwindow, Config.retryWindow, seconds, wrapI64_of_mem (by omega) hfit]
  exact mul_nonneg (Int.natCast_nonneg _) (by norm_num)

theorem ingested_of_worker {env : Env} {v v' : World} {time : Time} {a : Delivery.Action}
    (ha : ∀ q, a ≠ .enqueue q) (hv : v.step env ⟨time, a⟩ = some v') :
    v'.ingested = v.ingested := by
  cases World.step_moves hv with
  | enqueued => exact absurd rfl (ha _)
  | _ => rfl

theorem handler_of_ingested (hw : (service D).Reachable G w) :
    ∀ q ∈ w.world.ingested, ∃ h ∈ w.handlers, h.inserted = some q ∧ Checked h.request q := by
  apply hw.invariant
  · simp [service, World.initial]
  · intro w e w' hw hi hstep _
    cases Installation.step_moves hstep with
    | arrived =>
      intro q hq
      obtain ⟨h, hh, hins⟩ := hi q hq
      exact ⟨h, List.mem_append_left _ hh, hins⟩
    | worked ha hv =>
      intro q hq
      rw [ingested_of_worker ha hv] at hq
      exact hi q hq
    | @handled time i event h t h' hm hs =>
      have hmem := List.mem_of_getElem? hm
      have hmem' : h' ∈ w.handlers.set i h' := List.mem_set (lt_length_of_getElem? hm) h'
      have hmove := Handler.step_moves hs
      have hinv := (intakeInv_of_reachable (service_refines_intake hw)).handlers h hmem
      obtain ⟨hreq, hkept⟩ := handlerMove_keeps hmove hinv
      intro q hq
      rcases List.mem_append.mp hq with hq | hq
      · obtain ⟨x, hx, hins, hchecked⟩ := hi q hq
        rcases (mem_iff_eraseIdx hm).mp hx with rfl | hx
        · exact ⟨h', hmem', hkept q hins, hreq ▸ hchecked⟩
        · exact ⟨x, (mem_set_iff hm).mpr (.inr hx), hins, hchecked⟩
      · rcases committed_step hmove hinv with ⟨-, hnew⟩ | ⟨q', hnew, hins, -, hchecked, -⟩
        · rw [hnew] at hq
          cases hq
        · rw [hnew, List.mem_singleton] at hq
          subst hq
          exact ⟨h', hmem', hins, hreq ▸ hchecked⟩

theorem ingested_of_handler (hw : (service D).Reachable G w) :
    ∀ h ∈ w.handlers, ∀ q, h.inserted = some q → q ∈ w.world.ingested := by
  apply hw.invariant
  · simp [service]
  · intro w e w' hw hi hstep _
    cases Installation.step_moves hstep with
    | arrived time r =>
      intro h hh q hq
      rcases List.mem_append.mp hh with hh | hh
      · exact hi h hh q hq
      · rw [List.mem_singleton.mp hh] at hq
        cases hq
    | worked ha hv =>
      intro h hh q hq
      rw [ingested_of_worker ha hv]
      exact hi h hh q hq
    | @handled time i event h t h' hm hs =>
      intro x hx q hq
      have hmem := List.mem_of_getElem? hm
      rcases List.mem_or_eq_of_mem_set hx with hx | rfl
      · exact List.mem_append_left _ (hi x hx q hq)
      · cases hins : h.inserted with
        | none => exact List.mem_append_right _ (by simp [newlyInserted, hins, hq])
        | some q' =>
          have hinv := (intakeInv_of_reachable (service_refines_intake hw)).handlers h hmem
          have hkept := (handlerMove_keeps (Handler.step_moves hs) hinv).2 q' hins
          rw [hq, Option.some.injEq] at hkept
          exact List.mem_append_left _ (hi h hmem q (hins.trans (congrArg some hkept.symm)))

end ResendRouter.Service
