import LLMInference.Service.Provenance

/-!
What the consumer of a stream is told (`app/service.py`, `handle_stream`, `_replay_cached`).

A stream is a `start`, texts, and one `end` or one `error`, whatever becomes of the request and
of the others. `Stage.next` is the automaton of these streams, and `Phase.Told` says where the
request stands in it.

* `Exit.Tells`: what the last event says about the exit.
* `Trans.told`: the step lemma. `told_of_reaches`: in every run.
* `stream_grammar`: the events so far are the beginning of a stream, and the exit agrees with the
  last of them.
-/

namespace LLMInference

open Runs

/-- How far its events bring the consumer of a stream. -/
inductive Stage where
  | unstarted
  | running
  | finished
  | failed (error detail : String)
  deriving DecidableEq, Repr

/-- One `start`, then texts that are not empty, then one `end` or one `error`. -/
def Stage.next : Stage → StreamEvent → Option Stage
  | .unstarted, .start .. => some .running
  | .running, .delta text => if text = "" then none else some .running
  | .running, .end .. => some .finished
  | .running, .error error detail => some (.failed error detail)
  | _, _ => none

/-- No event leads back to the beginning. -/
theorem Stage.next_ne_unstarted (q : Stage) (e : StreamEvent) : q.next e ≠ some .unstarted := by
  cases q <;> cases e <;> simp [Stage.next]

/-- The events of the history, in order, lead to this stage. -/
def Leads (q : Stage) (h : List Event) : Prop :=
  exec Stage.next Always .unstarted (emissions h) = some q

/-- What the consumer of a request, streamed or not, knows of its exit. -/
def Exit.Tells : Exit → Bool → Stage → Prop
  | .streamed, b, q => b = true ∧ q = .finished
  | .streamFailed f, b, q => b = true ∧ q = .failed f.typeName f.detail
  | .closed, b, q => b = true ∧ q ≠ .unstarted
  | .cancelled, b, q => q = .unstarted ∨ b = true ∧ q = .running
  | .result _, b, q | .generation _, b, q => b = false ∧ q = .unstarted
  | _, _, q => q = .unstarted

/-- What the consumer of a request, streamed or not, has been told. -/
def Phase.Told : Phase → Bool → Stage → Prop
  | .yielded _ .start, b, q | .yielded _ .delta, b, q | .pulling _, b, q => b = true ∧ q = .running
  | .yielded _ .end, b, q => b = true ∧ q = .finished
  | .yielded _ (.error f), b, q => b = true ∧ q = .failed f.typeName f.detail
  | .replaying rest, b, q =>
      b = true ∧ q ≠ .unstarted ∧ exec Stage.next Always q rest = some .finished
  | .finalizing _ x, b, q | .storing _ x, b, q => (b = true ∧ q ≠ .unstarted) ∧ x.Tells b q
  | .done x, b, q => x.Tells b q
  | .refunding _ x, b, q => b = false ∧ q = .unstarted ∧ x.Tells b q
  | .attempting .., b, q | .generating .., b, q | .settling .., b, q | .caching .., b, q =>
      b = false ∧ q = .unstarted
  | _, _, q => q = .unstarted

section Steps

variable {σ : Type} {B : LedgerBackend σ} {ts : TextSupport} {s : Settings} {i : ℕ} {t : Task}
  {sh sh' : Shared σ} {a : TaskAct} {ph' : Phase} {h evs : List Event} {q q' : Stage}

theorem Leads.append (leads : Leads q h)
    (goes : exec Stage.next Always q (emissions evs) = some q') : Leads q' (h ++ evs) := by
  rw [Leads, emissions_append, exec_append, leads]
  exact goes

theorem Leads.silent (leads : Leads q h) (silent : ∀ j e, .emitted j e ∉ evs) :
    Leads q (h ++ history i evs) := by
  apply leads.append
  rw [emissions_eq_nil silent]
  rfl

theorem Leads.told (leads : Leads q h) (evs : List Event) {e : StreamEvent}
    (next : q.next e = some q')
    (before : ∀ e' ∈ evs, ∀ j e, e' ≠ .emitted j e) :
    Leads q' (h ++ history i (evs ++ [.emitted i e])) := by
  apply leads.append
  have one : emissions (history i (evs ++ [.emitted i e])) = [e] := by
    rw [history_append, emissions_append, emissions_emitted,
      emissions_eq_nil fun j e mem => before _ mem j e rfl, List.nil_append]
  rw [one]
  simp [exec, next, Always]

theorem silent_releaseEvents {r : Reservation} {f : LedgerFault} (j : ℕ) (e : StreamEvent) :
    .emitted j e ∉ releaseEvents i r f := by
  unfold releaseEvents
  split <;> simp

/-- A replay is a whole stream. -/
theorem exec_replayCached (d : RoutingDecision) (entry : CacheEntry) :
    ∃ e rest, replayCached d entry = e :: rest ∧ Stage.next .unstarted e = some .running ∧
      exec Stage.next Always .running rest = some .finished := by
  refine ⟨_, _, rfl, rfl, ?_⟩
  split
  · rfl
  · rename_i text
    simp [exec, Always, Stage.next, text]

/-! ### What the cases of `Trans` leave open: exits, and the events of a replay -/

theorem told_arrive : (arrive ts s t sh).2.2 = [] ∧
    (arrive ts s t sh).2.1.Told t.streaming .unstarted := by
  unfold arrive
  split
  rename_i limited limiter checked
  cases limited with
  | error retryAfterS => exact ⟨rfl, rfl⟩
  | ok _ =>
      cases route ts s t.request.routing [] with
      | error e => exact ⟨rfl, rfl⟩
      | ok d =>
          refine ⟨rfl, ?_⟩
          show (if sh.cache.isSome then Phase.lookup d else .reserving d).Told t.streaming
            .unstarted
          split <;> rfl

theorem told_of_arrived (here : t.phase = .arrived)
    (made : taskStep B ts s i t sh a = some (sh', ph', evs)) :
    evs = [] ∧ ph'.Told t.streaming .unstarted := by
  cases a with
  | run f =>
      simp only [taskStep, here] at made
      split at made
      · have told : (arrive ts s t sh).2.2 = [] ∧
            (arrive ts s t sh).2.1.Told t.streaming .unstarted := told_arrive
        rwa [Option.some.inj made] at told
      · cases made
  | cancel executed =>
      simp only [taskStep, here] at made
      cases made
      exact ⟨rfl, .inl rfl⟩
  | _ => simp [taskStep, here] at made

/-- A lookup tells the first event of a replay, or nothing. -/
theorem told_lookupCache (i : ℕ) (t : Task) (sh : Shared σ) (d : RoutingDecision) :
    ∃ q, exec Stage.next Always .unstarted (emissions (history i (lookupCache i t sh d).2.2)) =
      some q ∧ (lookupCache i t sh d).2.1.Told t.streaming q := by
  unfold lookupCache
  cases sh.cache with
  | none => exact ⟨_, rfl, rfl⟩
  | some c =>
      simp only
      generalize c.get (cacheKey d t.request.prompt) sh.mono = got
      obtain ⟨hit, c'⟩ := got
      cases hit with
      | none => exact ⟨_, rfl, rfl⟩
      | some entry =>
          obtain ⟨e, rest, whole, first, onward⟩ := exec_replayCached d entry
          simp only [whole]
          split
          · rename_i streamed
            refine ⟨.running, ?_, streamed, by simp, onward⟩
            rw [emissions_emitted]
            simp [exec, Always, first]
          · rename_i buffered
            refine ⟨.unstarted, ?_, Bool.not_eq_true _ ▸ buffered, rfl⟩
            rw [emissions_eq_nil (by simp)]
            rfl

theorem told_of_lookup {d : RoutingDecision} (here : t.phase = .lookup d)
    (made : taskStep B ts s i t sh a = some (sh', ph', evs)) :
    ∃ q, exec Stage.next Always .unstarted (emissions (history i evs)) = some q ∧
      ph'.Told t.streaming q := by
  cases a with
  | run f =>
      simp only [taskStep, here] at made
      split at made
      · have told := told_lookupCache i t sh d
        rwa [Option.some.inj made] at told
      · cases made
  | cancel executed =>
      simp only [taskStep, here] at made
      split at made
      · cases made
        exact ⟨_, rfl, .inl rfl⟩
      · cases made
  | _ => simp [taskStep, here] at made

theorem told_of_shedding {r : Reservation} (here : t.phase = .shedding r)
    (made : taskStep B ts s i t sh a = some (sh', ph', evs)) : ph'.Told t.streaming .unstarted := by
  cases a with
  | run f =>
      simp only [taskStep, here] at made
      split at made
      · cases made
        simp only [Phase.Told]
        cases (B.release f sh.ledger r).1 with
        | none => rfl
        | some e => rfl
      · cases made
  | cancel executed =>
      simp only [taskStep, here] at made
      split at made
      · cases made
        exact .inl rfl
      · cases made
  | _ => simp [taskStep, here] at made

theorem told_of_replaying {rest : List StreamEvent} (here : t.phase = .replaying rest)
    (told : t.phase.Told t.streaming q) (made : taskStep B ts s i t sh a = some (sh', ph', evs)) :
    ∃ q', exec Stage.next Always q (emissions (history i evs)) = some q' ∧
      ph'.Told t.streaming q' := by
  rw [here] at told
  obtain ⟨streamed, started, whole⟩ := told
  cases a with
  | next =>
      simp only [taskStep, here] at made
      cases rest with
      | nil =>
          cases made
          simp only [exec, Option.some.injEq] at whole
          exact ⟨q, rfl, streamed, whole⟩
      | cons e rest =>
          cases made
          simp only [exec, Always] at whole
          cases next : q.next e with
          | none => simp [next] at whole
          | some q' =>
              simp only [next] at whole
              refine ⟨q', ?_, streamed, ?_, whole⟩
              · rw [emissions_emitted]
                simp [exec, Always, next]
              · rintro rfl
                exact q.next_ne_unstarted e next
  | close =>
      simp only [taskStep, here] at made
      cases made
      exact ⟨q, rfl, streamed, started⟩
  | run f =>
      simp only [taskStep, here] at made
      split at made <;> cases made
  | _ => simp [taskStep, here] at made

/-! ### The step lemma -/

/-- The exit of a generated stream is told by its last event. -/
theorem told_exit {st : StreamState} {ph : Phase} {x : Exit} {b : Bool}
    (exiting : Exiting st ph a x) (told : ph.Told b q) :
    (b = true ∧ q ≠ .unstarted) ∧ x.Tells b q := by
  cases exiting with
  | streamed | failed => exact ⟨⟨told.1, by simp [told.2]⟩, told⟩
  | closed =>
      rename_i y
      have started : b = true ∧ q ≠ .unstarted := by
        cases y <;> exact ⟨told.1, by simp [told.2]⟩
      exact ⟨started, started⟩
  | cancelled => exact ⟨⟨told.1, by simp [told.2]⟩, .inr told⟩

/-- A request's steps tell the consumer what they say. -/
theorem told_step (made : taskStep B ts s i t sh a = some (sh', ph', evs)) (leads : Leads q h)
    (told : t.phase.Told t.streaming q) :
    ∃ q', Leads q' (h ++ history i evs) ∧ ph'.Told t.streaming q' := by
  have step := trans_of_taskStep made
  generalize phase : t.phase = ph at step
  rw [phase] at told
  cases step with
  | rejected same =>
      cases told
      exact ⟨_, leads.silent (by simp), (told_of_arrived phase made).2⟩
  | hit buffered | hitStream streamed | miss same =>
      obtain ⟨q', goes, told'⟩ := told_of_lookup phase made
      cases told
      exact ⟨q', leads.append goes, told'⟩
  | finishShed admits refund =>
      cases told
      exact ⟨_, leads.silent silent_releaseEvents, told_of_shedding phase made⟩
  | quit quiet =>
      cases ph with
      | arrived =>
          cases told
          exact ⟨_, leads.silent (by simp), (told_of_arrived phase made).2⟩
      | lookup d =>
          obtain ⟨q', goes, told'⟩ := told_of_lookup phase made
          cases told
          exact ⟨q', leads.append goes, told'⟩
      | replaying rest =>
          rw [← phase] at told
          obtain ⟨q', goes, told'⟩ := told_of_replaying phase told made
          exact ⟨q', leads.append goes, told'⟩
      | _ => cases quiet
  | replay =>
      rw [← phase] at told
      obtain ⟨q', goes, told'⟩ := told_of_replaying phase told made
      exact ⟨q', leads.append goes, told'⟩
  | granted admits reserved =>
      refine ⟨q, leads.silent ?_, told⟩
      intro j e
      split <;> simp
  | refused admits reserved =>
      refine ⟨q, leads.silent ?_, told⟩
      intro j e
      split <;> simp
  | enterBuffered entering buffered =>
      cases entering with
      | atOnce room | woken runnable room => exact ⟨q, leads.silent (by simp), buffered, told⟩
  | enterStreamed entering streamed =>
      have fresh : q = .unstarted := by
        cases entering with
        | atOnce room | woken runnable room => exact told
      subst fresh
      exact ⟨.running, leads.told [.admitted i, .started i] rfl (by simp), streamed, rfl⟩
  | deniedRaise same | faultRaise fault | otherRaise other =>
      exact ⟨q, leads.silent (by simp), told.1, told.2, told.1, told.2⟩
  | settleRaise admits bill =>
      exact ⟨q, leads.silent silent_settleEvents, told.1, told.2, told.2⟩
  | settleCache admits bill | settleReturn admits bill =>
      refine ⟨q, leads.silent fun j e => ?_, told⟩
      simp [silent_settleEvents]
  | refundRaise admits refund =>
      refine ⟨q, leads.silent fun j e => ?_, told.2.1⟩
      simp [silent_releaseEvents]
  | refund admits refund =>
      refine ⟨q, leads.silent fun j e => ?_, told.2.2⟩
      simp [silent_releaseEvents]
  | chunkText text =>
      obtain ⟨streamed, rfl⟩ := told
      exact ⟨.running, leads.told [] (if_neg text) (by simp), streamed, rfl⟩
  | exhausted =>
      obtain ⟨streamed, rfl⟩ := told
      exact ⟨.finished, leads.told [] rfl (by simp), streamed, rfl⟩
  | streamFault fault =>
      obtain ⟨streamed, rfl⟩ := told
      exact ⟨_, leads.told [_] rfl (by simp), streamed, rfl⟩
  | streamOther other =>
      obtain ⟨streamed, rfl⟩ := told
      exact ⟨_, leads.told [] rfl (by simp), streamed, rfl⟩
  | exit exiting => exact ⟨q, leads.silent (by simp), told_exit exiting told⟩
  | finalizeStore admits bill => exact ⟨q, leads.silent silent_settleEvents, told⟩
  | finalizeClose admits bill =>
      refine ⟨q, leads.silent fun j e => ?_, told.2⟩
      simp [silent_settleEvents]
  | storeClose => exact ⟨q, leads.silent (by simp), told.2⟩
  | cancelReserve networked =>
      refine ⟨q, leads.silent fun j e => ?_, .inl told⟩
      split <;> simp
  | cancelShed networked => exact ⟨q, leads.silent silent_releaseEvents, .inl told⟩
  | cancelSettle networked =>
      refine ⟨q, leads.silent fun j e => ?_, .inl told.2⟩
      simp [silent_settleEvents]
  | cancelRefund networked =>
      refine ⟨q, leads.silent fun j e => ?_, .inl told.2.1⟩
      simp [silent_releaseEvents]
  | cancelQueued => exact ⟨q, leads.silent (by simp), .inl told⟩
  | cancelGenerating | cancelCaching _ => exact ⟨q, leads.silent (by simp), .inl told.2⟩
  | _ => exact ⟨q, leads.silent (by simp), told⟩

/-- What the consumer of each request has been told, in every run. -/
theorem told_of_reaches {ok : World σ → WorldAct → Prop} {w₀ w : World σ} (fresh : w₀.Fresh)
    (reached : Reaches (World.step B ts s) ok w₀ w) (here : w.tasks[i]? = some t) :
    ∃ q, Leads q (history i w.log) ∧ t.phase.Told t.streaming q := by
  refine each_story (Q := fun _ t h => ∃ q, Leads q h ∧ t.phase.Told t.streaming q)
    fresh reached ?_ ?_ i t here
  · exact fun _ _ _ => ⟨.unstarted, rfl, rfl⟩
  · rintro w i t a sh ph evs - - - made ⟨q, leads, told⟩
    obtain ⟨q', leads', told'⟩ := told_step made leads told
    exact ⟨q', leads', told'⟩

end Steps

/-! ### What a consumer can rely on -/

/-- The events are a beginning of a stream, as far as the stage says. -/
inductive Beginning : List StreamEvent → Stage → Prop
  | nothing : Beginning [] .unstarted
  | going {first : StreamEvent} {pieces : List String}
      (starts : Stage.next .unstarted first = some .running) (full : "" ∉ pieces) :
      Beginning (first :: pieces.map .delta) .running
  | whole {first last : StreamEvent} {pieces : List String} {q : Stage}
      (starts : Stage.next .unstarted first = some .running) (full : "" ∉ pieces)
      (ends : Stage.next .running last = some q) (closed : q ≠ .running) :
      Beginning (first :: pieces.map .delta ++ [last]) q

theorem Beginning.concat {events : List StreamEvent} {q q' : Stage} {e : StreamEvent}
    (beginning : Beginning events q) (next : q.next e = some q') :
    Beginning (events ++ [e]) q' := by
  cases beginning with
  | nothing =>
      cases e with
      | start =>
          cases next
          have none' : "" ∉ ([] : List String) := List.not_mem_nil
          exact .going rfl none'
      | _ => cases next
  | going starts full =>
      rename_i first pieces
      cases e with
      | start => cases next
      | delta text =>
          simp only [Stage.next] at next
          split at next
          · cases next
          · rename_i some'
            cases next
            have more : "" ∉ pieces ++ [text] := by simp [full, Ne.symm some']
            have longer := Beginning.going starts more
            rwa [List.map_append] at longer
      | «end» =>
          cases next
          exact .whole starts full rfl (by simp)
      | error =>
          cases next
          exact .whole starts full rfl (by simp)
  | whole starts full ends closed =>
      cases q with
      | running => exact absurd rfl closed
      | unstarted => exact absurd ends (Stage.next_ne_unstarted _ _)
      | _ => cases next

theorem Beginning.eq_nil {events : List StreamEvent} (beginning : Beginning events .unstarted) :
    events = [] := by
  cases beginning with
  | nothing => rfl
  | whole starts full ends closed => exact absurd ends (Stage.next_ne_unstarted _ _)

/-- What the automaton accepts is a beginning of a stream. -/
theorem beginning_of_exec {events : List StreamEvent} {q : Stage}
    (ran : exec Stage.next Always .unstarted events = some q) : Beginning events q := by
  induction events using List.reverseRecOn generalizing q with
  | nil =>
      cases ran
      exact .nothing
  | append_singleton events e ih =>
      obtain ⟨mid, before, -, next⟩ := exec_concat _ _ ran
      exact (ih before).concat next

/-- How a request has exited, though its finalizer may run on. -/
def Phase.exited : Phase → Option Exit
  | .finalizing _ x | .storing _ x | .done x => some x
  | _ => none

theorem Phase.Told.exit {ph : Phase} {b : Bool} {q : Stage} (told : ph.Told b q) {x : Exit}
    (exited : ph.exited = some x) : x.Tells b q := by
  cases ph with
  | finalizing | storing =>
      cases exited
      exact told.2
  | done =>
      cases exited
      exact told
  | _ => cases exited

theorem Exit.Tells.buffered {x : Exit} {q : Stage} (tells : x.Tells false q) : q = .unstarted := by
  cases x with
  | cancelled => exact tells.resolve_right fun both => absurd both.1 (by decide)
  | result | generation => exact tells.2
  | streamed | streamFailed | closed => exact absurd tells.1 (by decide)
  | _ => exact tells

theorem Phase.Told.buffered {ph : Phase} {q : Stage} (told : ph.Told false q) : q = .unstarted := by
  cases ph with
  | attempting | generating | settling | caching => exact told.2
  | refunding => exact told.2.1
  | pulling | replaying => exact absurd told.1 (by decide)
  | yielded st y => cases y <;> exact absurd told.1 (by decide)
  | finalizing | storing => exact absurd told.1.1 (by decide)
  | done => exact Exit.Tells.buffered told
  | _ => exact told

/-- In every run, whatever the providers, the ledger and the clients do, the events of a request
are a beginning of a stream, which is over when its last event is `end` or `error`; a buffered
request has none; and the exit is what the events say. -/
theorem stream_grammar {σ : Type} {B : LedgerBackend σ} {ts : TextSupport} {s : Settings}
    {ok : World σ → WorldAct → Prop} {w₀ w : World σ} (fresh : w₀.Fresh)
    (reached : Reaches (World.step B ts s) ok w₀ w) {i : ℕ} {t : Task}
    (here : w.tasks[i]? = some t) :
    ∃ q, Beginning (emissions (history i w.log)) q ∧ (t.streaming = false → q = .unstarted) ∧
      ∀ x, t.phase.exited = some x → x.Tells t.streaming q := by
  obtain ⟨q, leads, told⟩ := told_of_reaches fresh reached here
  refine ⟨q, beginning_of_exec leads, ?_, fun x exited => told.exit exited⟩
  intro buffered
  rw [buffered] at told
  exact told.buffered

/-- A stream whose backend goes away after its first text. -/
def brokenStream : List WorldAct :=
  [.submit { prompt := "hi", userId := "u" } true, .task 0 (.run .none), .task 0 (.run .none),
    .task 0 (.run .none), .task 0 .next, .task 0 (.chunk { text := "yo" }), .task 0 .next,
    .task 0 (.streamError (.unavailable "gone")), .task 0 .next]

/-- Its consumer knows. -/
theorem stream_grammar_broken :
    ∃ w t, Reaches (World.step Ledger.backend .ascii oneSlot) Always (World.start oneSlot {}) w ∧
      w.tasks[0]? = some t ∧ t.phase.exited = some (.streamFailed (.unavailable "gone")) ∧
      Beginning (emissions (history 0 w.log)) (.failed "ProviderUnavailableError" "gone") := by
  have holds : execHolds (World.step Ledger.backend .ascii oneSlot) Always (World.start oneSlot {})
      brokenStream (fun w => w.tasks[0]?.any fun t =>
        decide (t.phase.exited = some (.streamFailed (.unavailable "gone")))) = true := by
    decide +kernel
  obtain ⟨w, reached, failed⟩ := exists_reaches_of_execHolds _ _ holds
  obtain ⟨t, here, exited⟩ := (Option.any_eq_true ..).mp failed
  have exited := of_decide_eq_true exited
  obtain ⟨q, beginning, -, tells⟩ := stream_grammar ⟨rfl, rfl⟩ reached here
  obtain ⟨-, rfl⟩ := tells _ exited
  exact ⟨w, t, reached, here, exited, beginning⟩

end LLMInference
