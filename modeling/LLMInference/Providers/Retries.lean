import LLMInference.Providers.Stream

/-!
Retries of a stream (`app/providers/vllm.py`, `generate_stream`).

* `readLines_texts`: whatever ends the loop over the lines, the texts it has gathered are those of
  the first frames, and `started` says whether there was one.
* `Attempt.Spec`: what an attempt can end in, given its frames. `isAgain_iff`: when it is tried
  again.
* `StreamSpec`: the texts yielded are those of the frames of the last attempt, and no attempt before
  it has seen one.
* `retries_never_mix_iff`: the stream then ends in one chunk with usage or a provider error, unless
  the back-off overflows before the attempts are over.
-/

namespace LLMInference

/-- `ProviderError` or one of its subclasses. -/
def ProviderFailure.provider (f : ProviderFailure) : Bool :=
  decide (f.typeName ∈ ["ProviderError", "ProviderTimeoutError", "ProviderUnavailableError"])

/-- The frames that an attempt parses: those of an accepted response. -/
def Attempt.frames (h : PyHost) : Attempt → List PyDict
  | .unreachable _ => []
  | .response status _ lines _ =>
      if status ∈ retryableStatus ∨ 400 ≤ status then [] else framesOf h lines

/-- The texts of the frames, in order. -/
def Attempt.texts (h : PyHost) (a : Attempt) : List PyValue := (a.frames h).filterMap frameText

/-- The chunks that carry text. -/
def VLLMStream.texts (g : VLLMStream) : List PyValue :=
  (g.chunks.map (·.text)).filter PyValue.truthy

theorem provider_unestablished (e : PyError) : (unestablished e).provider = true := by
  unfold unestablished
  split <;> rfl

section Lines

attribute [local irreducible] parseSseLine

variable {h : PyHost} {l l' : FrameLoop} {data : PyDict} {lines : List String}

/-- What a frame leaves behind that stops the loop. -/
theorem frameStep_raised {e : PyError} (step : frameStep h l data = (l', some e)) :
    l'.started = true ∧
      ∃ seen, l'.pieces = l.pieces ++ seen ∧ seen <+: (frameText data).toList := by
  cases chosen : choiceStep { l with started := true } data with
  | error e' =>
      simp only [frameStep, chosen, Prod.mk.injEq, Option.some.injEq] at step
      obtain ⟨rfl, -⟩ := step
      exact ⟨rfl, [], (List.append_nil _).symm, List.nil_prefix⟩
  | ok l₁ =>
      have readable := choiceStep_ok_iff.mp ⟨l₁, chosen⟩
      cases used : usageFrom h data with
      | error e' =>
          simp only [frameStep, choiceStep_readable readable, used, Prod.mk.injEq] at step
          obtain ⟨rfl, -⟩ := step
          exact ⟨rfl, _, rfl, List.prefix_rfl⟩
      | ok u => simp [frameStep, chosen, used] at step

/-- The loop gathers the texts of the first frames, of all of them when nothing stops it. -/
theorem readLines_texts {how : LinesEnd} (read : readLines h l lines = (l', how)) :
    (l'.started = true ↔ l.started = true ∨ framesOf h lines ≠ []) ∧
      ∃ seen, l'.pieces = l.pieces ++ seen ∧ seen <+: (framesOf h lines).filterMap frameText := by
  induction lines generalizing l with
  | nil =>
      cases read
      exact ⟨by simp [framesOf], [], by simp, List.nil_prefix⟩
  | cons line rest ih =>
      cases parsed : parseSseLine h line with
      | error e =>
          simp only [readLines, parsed] at read
          cases read
          exact ⟨by simp [framesOf, parsed], [], by simp, List.nil_prefix⟩
      | ok sse =>
          cases sse with
          | skip =>
              simp only [readLines, parsed] at read
              simpa only [framesOf, parsed] using ih read
          | done =>
              simp only [readLines, parsed] at read
              cases read
              exact ⟨by simp [framesOf, parsed], [], by simp, List.nil_prefix⟩
          | frame data =>
              simp only [readLines, parsed] at read
              have split : (data :: framesOf h rest).filterMap frameText =
                  (frameText data).toList ++ (framesOf h rest).filterMap frameText := by
                rw [List.filterMap_cons]
                cases frameText data <;> rfl
              simp only [framesOf, parsed, split, ne_eq, reduceCtorEq, not_false_eq_true, or_true,
                iff_true]
              rcases step : frameStep h l data with ⟨l₁, _ | e⟩
              · have readable : ReadableChoice data ∧ ReadableUsage h data := by
                  rw [← frameStep_ok_iff (l := l), step]
                rw [frameStep_readable readable.1 readable.2] at read
                obtain ⟨started, seen, pieces, first⟩ := ih read
                refine ⟨started.mpr (.inl rfl), (frameText data).toList ++ seen, ?_, ?_⟩
                · rw [pieces, FrameLoop.absorb, List.append_assoc]
                · exact (List.prefix_append_right_inj _).mpr first
              · rw [step] at read
                cases read
                obtain ⟨started, seen, pieces, first⟩ := frameStep_raised step
                exact ⟨started, seen, pieces, first.trans (List.prefix_append _ _)⟩

/-- A loop that does not raise has gathered the texts of all frames. -/
theorem pieces_of_readLines {how : LinesEnd} (read : readLines h l lines = (l', how))
    (went : ∀ e, how ≠ .raised e) : l'.pieces = l.pieces ++ textsOf h lines := by
  have readable : ∀ line ∈ beforeMark h lines, ReadableLine h line := by
    by_contra unreadable
    push Not at unreadable
    obtain ⟨e, raised⟩ := readLines_raises_iff (l := l).mpr unreadable
    rw [read] at raised
    exact went e raised
  obtain ⟨absorbed, -⟩ := readLines_readable (l := l) readable
  rw [read] at absorbed
  exact (congrArg FrameLoop.pieces absorbed).trans (absorb_pieces _ _)

end Lines

/-- What an attempt can end in. -/
inductive Attempt.Spec (h : PyHost) (a : Attempt) : AttemptEnd → Prop
  | finished {final : VLLMChunk} (usage : final.usage.isSome = true) (text : final.text = .str "") :
      Spec h a (.finished (a.texts h) final)
  | failed {pieces : List PyValue} {f : ProviderFailure} (first : pieces <+: a.texts h)
      (family : f.provider = true) : Spec h a (.failed pieces f)
  | again {f : ProviderFailure} (unseen : a.frames h = []) (family : f.provider = true) :
      Spec h a (.again f)

namespace VLLMProvider

section Attempts

variable {v : VLLMProvider} {ts : TextSupport} {h : PyHost} {prompt : String}

theorem spec_raise {a : Attempt} {l : FrameLoop} (e : PyError)
    (started : l.started = true ↔ a.frames h ≠ []) (first : l.pieces <+: a.texts h) :
    a.Spec h (l.raise e) := by
  unfold FrameLoop.raise
  split
  · exact .failed first rfl
  · rename_i not
    exact .again (by simpa [started] using not) (provider_unestablished e)

theorem spec_finish {a : Attempt} {l : FrameLoop} (started : l.started = true ↔ a.frames h ≠ [])
    (all : l.pieces = a.texts h) : a.Spec h (v.finish ts prompt l) := by
  unfold finish
  split
  · rw [all]
    exact .finished rfl rfl
  · split
    · rw [all]
      exact .finished rfl rfl
    · exact spec_raise _ started (all ▸ List.prefix_rfl)

/-- The attempt ends in what its frames allow. -/
theorem spec_attemptStream (a : Attempt) : a.Spec h (v.attemptStream ts h prompt a) := by
  cases a with
  | unreachable e => exact .again rfl (provider_unestablished e)
  | response status body lines cut =>
      simp only [attemptStream]
      split
      · rename_i retryable
        exact .again (by simp [Attempt.frames, retryable]) rfl
      · rename_i settled
        split
        · rename_i rejected
          have unseen : (Attempt.response status body lines cut).frames h = [] := by
            simp [Attempt.frames, rejected]
          split
          · exact .again unseen (provider_unestablished _)
          · exact .failed List.nil_prefix rfl
        · rename_i accepted
          have frames : (Attempt.response status body lines cut).frames h = framesOf h lines := by
            simp [Attempt.frames, settled, accepted]
          rcases read : readLines h {} lines with ⟨l, how⟩
          obtain ⟨started, seen, pieces, first⟩ := readLines_texts read
          have started' : l.started = true ↔
              (Attempt.response status body lines cut).frames h ≠ [] := by
            simpa [frames] using started
          have pieces' : l.pieces <+: (Attempt.response status body lines cut).texts h := by
            rw [pieces, Attempt.texts, frames]
            exact first
          have all : (∀ e, how ≠ .raised e) →
              l.pieces = (Attempt.response status body lines cut).texts h := by
            intro went
            rw [pieces_of_readLines read went, List.nil_append, Attempt.texts, frames, textsOf]
          cases how with
          | raised e => exact spec_raise e started' pieces'
          | done => exact spec_finish started' (all (by simp))
          | exhausted =>
              cases cut with
              | some e => exact spec_raise e started' pieces'
              | none => exact spec_finish started' (all (by simp))

end Attempts

end VLLMProvider

/-- The attempt is tried again: the server was not reached, or is at fault; the body of its refusal
cannot be read; or reading what it accepted raises before there was a frame. -/
def Attempt.Retried (v : VLLMProvider) (ts : TextSupport) (h : PyHost) (prompt : String) :
    Attempt → Prop
  | .unreachable _ => True
  | .response status body lines cut =>
      if status ∈ retryableStatus then True
      else if 400 ≤ status then ∃ e, body = .error e
      else framesOf h lines = [] ∧
        ((∃ line ∈ beforeMark h lines, ¬ReadableLine h line) ∨
          cut.isSome = true ∧ (∀ line ∈ lines, parseSseLine h line ≠ .ok .done) ∨
          v.charsPerToken = 0 ∧ Untokenized ts prompt)

section Again

attribute [local irreducible] parseSseLine

variable {v : VLLMProvider} {ts : TextSupport} {h : PyHost} {prompt : String}
  {l l' : FrameLoop} {lines : List String}

/-- The loop ends at an end mark, or has seen none. -/
theorem readLines_end {how : LinesEnd} (read : readLines h l lines = (l', how)) :
    (how = .done → ∃ line ∈ lines, parseSseLine h line = .ok .done) ∧
      (how = .exhausted → ∀ line ∈ lines, parseSseLine h line ≠ .ok .done) := by
  induction lines generalizing l with
  | nil =>
      cases read
      simp
  | cons line rest ih =>
      rw [List.exists_mem_cons_iff, List.forall_mem_cons]
      cases parsed : parseSseLine h line with
      | error e =>
          simp only [readLines, parsed] at read
          cases read
          simp
      | ok sse =>
          cases sse with
          | skip =>
              simp only [readLines, parsed] at read
              simpa using ih read
          | done =>
              simp only [readLines, parsed] at read
              cases read
              simp
          | frame data =>
              simp only [readLines, parsed] at read
              rcases step : frameStep h l data with ⟨l₁, _ | e⟩
              · rw [step] at read
                simpa using ih read
              · rw [step] at read
                cases read
                simp

/-- An exception is raised in an attempt that is tried again, unless there was a frame. -/
theorem isAgain_raise (e : PyError) : (l.raise e).isAgain = true ↔ l.started = false := by
  unfold FrameLoop.raise
  split <;> rename_i started
  · simp [AttemptEnd.isAgain, started]
  · simpa [AttemptEnd.isAgain] using started

theorem isAgain_finish (gathered : l = (framesOf h lines).foldl (FrameLoop.absorb h) {})
    (started : l.started = true ↔ framesOf h lines ≠ []) :
    (v.finish ts prompt l).isAgain = true ↔
      framesOf h lines = [] ∧ v.charsPerToken = 0 ∧ Untokenized ts prompt := by
  have counted : (∃ usage, v.estimate ts prompt 0 = .ok usage) ↔
      v.charsPerToken ≠ 0 ∨ 0 = 0 ∧ ¬Untokenized ts prompt := VLLMProvider.estimate_ok_iff
  by_cases frames : framesOf h lines = []
  · rw [and_iff_right frames]
    rw [frames] at gathered
    cases gathered
    simp only [VLLMProvider.finish, List.foldl_nil]
    cases made : v.estimate ts prompt 0 with
    | ok usage =>
        have some' := counted.mp ⟨usage, made⟩
        refine iff_of_false Bool.false_ne_true ?_
        tauto
    | error e =>
        have none : ¬∃ usage, v.estimate ts prompt 0 = .ok usage := by
          rintro ⟨usage, made'⟩
          cases made.symm.trans made'
        rw [counted] at none
        refine iff_of_true rfl ?_
        tauto
  · refine iff_of_false ?_ fun both => frames both.1
    unfold VLLMProvider.finish
    split
    · exact Bool.false_ne_true
    · split
      · exact Bool.false_ne_true
      · rw [isAgain_raise, started.mpr frames]
        exact Bool.noConfusion

/-- The attempt is tried again exactly when it counts as such. -/
theorem isAgain_iff {a : Attempt} :
    (v.attemptStream ts h prompt a).isAgain = true ↔ a.Retried v ts h prompt := by
  cases a with
  | unreachable e => exact iff_of_true rfl trivial
  | response status body lines cut =>
      by_cases busy : status ∈ retryableStatus
      · simp [VLLMProvider.attemptStream, Attempt.Retried, busy, AttemptEnd.isAgain]
      by_cases rejected : 400 ≤ status
      · cases body <;>
          simp [VLLMProvider.attemptStream, Attempt.Retried, busy, rejected, AttemptEnd.isAgain]
      rcases read : readLines h {} lines with ⟨l, how⟩
      have started : l.started = true ↔ framesOf h lines ≠ [] := by
        simpa using (readLines_texts read).1
      have unframed : l.started = false ↔ framesOf h lines = [] := by
        rw [← Bool.not_eq_true, started, not_not]
      obtain ⟨marked, unmarked⟩ := readLines_end read
      have unread : (∃ e, (readLines h {} lines).2 = .raised e) ↔
          ∃ line ∈ beforeMark h lines, ¬ReadableLine h line := readLines_raises_iff
      rw [read] at unread
      simp only [VLLMProvider.attemptStream, Attempt.Retried, busy, rejected, if_false, read]
      have gathered : (∀ e, how ≠ .raised e) →
          l = (framesOf h lines).foldl (FrameLoop.absorb h) {} := by
        intro went
        have readable : ∀ line ∈ beforeMark h lines, ReadableLine h line := by
          by_contra unreadable
          push Not at unreadable
          obtain ⟨e, raised⟩ := unread.mpr unreadable
          exact went e raised
        have folded := (readLines_readable (l := {}) readable).1
        rwa [read] at folded
      cases how with
      | raised e =>
          rw [isAgain_raise, unframed]
          exact (and_iff_left (.inl (unread.mp ⟨e, rfl⟩))).symm
      | done =>
          rw [isAgain_finish (gathered (by simp)) started, ← unread]
          refine and_congr_right fun _ => ?_
          obtain ⟨line, mem, mark⟩ := marked rfl
          constructor
          · exact fun none => .inr (.inr none)
          · rintro (⟨e, raised⟩ | ⟨-, none⟩ | none)
            · cases raised
            · exact absurd mark (none line mem)
            · exact none
      | exhausted =>
          rw [← unread]
          cases cut with
          | some e =>
              simp only [isAgain_raise, unframed]
              exact (and_iff_left (.inr (.inl ⟨rfl, unmarked rfl⟩))).symm
          | none =>
              simp only [isAgain_finish (gathered (by simp)) started]
              simp

end Again

/-- Every text of a frame counts as true. -/
theorem filter_texts {h : PyHost} {a : Attempt} {pieces : List PyValue}
    (first : pieces <+: a.texts h) : pieces.filter PyValue.truthy = pieces := by
  rw [List.filter_eq_self]
  intro piece mem
  obtain ⟨data, -, text⟩ := List.mem_filterMap.mp (first.subset mem)
  unfold frameText at text
  split at text
  · exact (Option.filter_eq_some_iff.mp text).2
  · cases text

/-- What a stream has come to after attempts from `attempt` on. -/
structure StreamSpec (h : PyHost) (upstream : ℕ → Attempt) (attempt left : ℕ) (g : VLLMStream) :
    Prop where
  bounded : g.requests ≤ attempt + left
  unseen : ∀ k, attempt ≤ k → k + 1 < g.requests → (upstream k).frames h = []
  texts : g.texts <+: (upstream (g.requests - 1)).texts h
  ends : (g.failure = none ∧ g.texts = (upstream (g.requests - 1)).texts h ∧
      ∃ pieces final, g.chunks = pieces ++ [final] ∧ final.usage.isSome = true ∧
        ∀ c ∈ pieces, c.usage = none) ∨
    ∃ f, g.failure = some f ∧ ∀ c ∈ g.chunks, c.usage = none

/-- No attempt too many, and none after one that has parsed a frame; the texts are the first of the
last attempt's frames, in order; and the stream returns, with all of these and one last chunk that
carries the usage, or it raises a provider error. -/
structure NeverMixes (v : VLLMProvider) (h : PyHost) (upstream : ℕ → Attempt) (g : VLLMStream) :
    Prop where
  bounded : g.requests ≤ v.maxRetries.toNat
  unseen : ∀ k, k + 1 < g.requests → (upstream k).frames h = []
  texts : g.texts <+: (upstream (g.requests - 1)).texts h
  ends : (g.failure = none ∧ g.texts = (upstream (g.requests - 1)).texts h ∧
      ∃ pieces final, g.chunks = pieces ++ [final] ∧ final.usage.isSome = true ∧
        ∀ c ∈ pieces, c.usage = none) ∨
    ∃ f, g.failure = some f ∧ f.provider = true ∧ ∀ c ∈ g.chunks, c.usage = none

namespace VLLMProvider

section Loop

variable {v : VLLMProvider} {ts : TextSupport} {h : PyHost} {prompt : String}
  {upstream : ℕ → Attempt}

theorem usage_textChunk {pieces : List PyValue} :
    ∀ c ∈ pieces.map textChunk, c.usage = none := by
  intro c mem
  obtain ⟨text, -, rfl⟩ := List.mem_map.mp mem
  rfl

theorem texts_map_textChunk (pieces : List PyValue) :
    (pieces.map textChunk).map (·.text) = pieces := by
  rw [List.map_map]
  exact List.map_id _

theorem streamSpec_streamFrom (left attempt : ℕ) :
    StreamSpec h upstream attempt left (v.streamFrom ts h prompt upstream left attempt) := by
  induction left generalizing attempt with
  | zero =>
      refine ⟨le_rfl, ?_, List.nil_prefix, .inr ⟨_, rfl, by simp [streamFrom]⟩⟩
      intro k from' before
      simp only [streamFrom] at before
      omega
  | succ left ih =>
      have only : ∀ k, attempt ≤ k → k + 1 < attempt + 1 → (upstream k).frames h = [] := by
        intro k from' before
        omega
      have spec : (upstream attempt).Spec h (v.attemptStream ts h prompt (upstream attempt)) :=
        spec_attemptStream _
      generalize how : v.attemptStream ts h prompt (upstream attempt) = ended at spec
      cases spec with
      | @finished final usage text =>
          rw [streamFrom, how]
          have texts : VLLMStream.texts
              { chunks := ((upstream attempt).texts h).map textChunk ++ [final], failure := none,
                requests := attempt + 1 } = (upstream attempt).texts h := by
            rw [VLLMStream.texts, List.map_append, texts_map_textChunk, List.filter_append,
              filter_texts List.prefix_rfl, List.map_singleton, text]
            exact List.append_nil _
          exact ⟨by simp only; omega, only, ⟨[], (List.append_nil _).trans texts⟩,
            .inl ⟨rfl, texts, _, final, rfl, usage, usage_textChunk⟩⟩
      | @failed pieces f first =>
          rw [streamFrom, how]
          have texts : VLLMStream.texts
              { chunks := pieces.map textChunk, failure := some f, requests := attempt + 1 } =
                pieces := by
            rw [VLLMStream.texts, texts_map_textChunk, filter_texts first]
          exact ⟨by simp only; omega, only, texts.symm ▸ first, .inr ⟨f, rfl, usage_textChunk⟩⟩
      | @again f unseen =>
          have stopped : ∀ f, StreamSpec h upstream attempt (left + 1)
              { chunks := [], failure := some f, requests := attempt + 1 } := fun f =>
            ⟨by simp only; omega, only, List.nil_prefix, .inr ⟨f, rfl, by simp⟩⟩
          rw [streamFrom_again how]
          split_ifs
          · exact stopped f
          · exact stopped (escaped tooLarge)
          · obtain ⟨bounded, unseen', texts, ends⟩ := ih (attempt + 1)
            refine ⟨by omega, ?_, texts, ends⟩
            intro k from' before
            rcases Nat.eq_or_lt_of_le from' with rfl | later
            · exact unseen
            · exact unseen' k later before

/-- All that a stream raises are provider errors, unless it is to wait for a time too long. -/
theorem provider_streamFrom_iff (left attempt : ℕ) :
    (∀ f, (v.streamFrom ts h prompt upstream left attempt).failure = some f → f.provider = true) ↔
      ¬∃ k, k + 1 < left ∧ backoffLimit ≤ attempt + k ∧
        ∀ j ≤ k, (v.attemptStream ts h prompt (upstream (attempt + j))).isAgain = true := by
  induction left generalizing attempt with
  | zero =>
      refine iff_of_true ?_ fun ⟨k, within, _⟩ => absurd within (Nat.not_lt_zero _)
      intro f raised
      cases raised
      rfl
  | succ left ih =>
      have first : ∀ k, (∀ j ≤ k, (v.attemptStream ts h prompt (upstream (attempt + j))).isAgain =
          true) → (v.attemptStream ts h prompt (upstream attempt)).isAgain = true :=
        fun k all => all 0 (Nat.zero_le k)
      have spec : (upstream attempt).Spec h (v.attemptStream ts h prompt (upstream attempt)) :=
        spec_attemptStream _
      cases how : v.attemptStream ts h prompt (upstream attempt) with
      | finished pieces final =>
          rw [streamFrom, how]
          refine iff_of_true (fun f raised => by cases raised) ?_
          rintro ⟨k, -, -, all⟩
          cases how ▸ first k all
      | failed pieces f =>
          rw [how] at spec
          cases spec with
          | failed _ family =>
              rw [streamFrom, how]
              refine iff_of_true (fun f' raised => by cases raised; exact family) ?_
              rintro ⟨k, -, -, all⟩
              cases how ▸ first k all
      | again f =>
          rw [how] at spec
          cases spec with
          | again _ family =>
              rw [streamFrom_again how]
              split_ifs with last late
              · refine iff_of_true (fun f' raised => by cases raised; exact family) ?_
                rintro ⟨k, within, -⟩
                omega
              · refine iff_of_false (fun family => ?_) (not_not_intro ?_)
                · cases family _ rfl
                · refine ⟨0, by omega, late, fun j le => ?_⟩
                  cases Nat.le_zero.mp le
                  exact congrArg AttemptEnd.isAgain how
              · rw [ih (attempt + 1), not_iff_not]
                constructor
                · rintro ⟨k, within, long, all⟩
                  refine ⟨k + 1, by omega, by omega, fun j le => ?_⟩
                  cases j with
                  | zero => exact congrArg AttemptEnd.isAgain how
                  | succ j => simpa [Nat.add_assoc, Nat.add_comm 1] using all j (by omega)
                · rintro ⟨k, within, long, all⟩
                  cases k with
                  | zero => omega
                  | succ k =>
                      refine ⟨k, by omega, by omega, fun j le => ?_⟩
                      simpa [Nat.add_assoc, Nat.add_comm 1] using all (j + 1) (by omega)

/-- The texts of a stream never mix, and it ends as it should, if and only if the back-off does not
overflow. -/
theorem retries_never_mix_iff (v : VLLMProvider) (ts : TextSupport) (h : PyHost) (prompt : String)
    (upstream : ℕ → Attempt) :
    NeverMixes v h upstream (v.generateStream ts h prompt upstream) ↔
      ¬v.Overflows fun k => (upstream k).Retried v ts h prompt := by
  have overflows : v.Overflows (fun k => (upstream k).Retried v ts h prompt) ↔
      ∃ k, k + 1 < v.maxRetries.toNat ∧ backoffLimit ≤ 0 + k ∧
        ∀ j ≤ k, (v.attemptStream ts h prompt (upstream (0 + j))).isAgain = true := by
    simp only [Nat.zero_add, isAgain_iff, Overflows]
    constructor
    · rintro ⟨more, all⟩
      exact ⟨backoffLimit, by omega, le_rfl, all⟩
    · rintro ⟨k, within, long, all⟩
      exact ⟨by omega, fun j le => all j (le.trans long)⟩
  rw [overflows, ← provider_streamFrom_iff]
  obtain ⟨bounded, unseen, texts, ends⟩ :
      StreamSpec h upstream 0 v.maxRetries.toNat (v.generateStream ts h prompt upstream) :=
    streamSpec_streamFrom v.maxRetries.toNat 0
  constructor
  · rintro ⟨-, -, -, ⟨returned, -⟩ | ⟨f, raised, family, -⟩⟩ f' raised'
    · cases returned.symm.trans raised'
    · cases raised.symm.trans raised'
      exact family
  · intro family
    refine ⟨by omega, fun k before => unseen k (Nat.zero_le k) before, texts, ?_⟩
    rcases ends with returned | ⟨f, raised, silent⟩
    · exact .inl returned
    · exact .inr ⟨f, raised, family f raised, silent⟩

end Loop

/-- A server that is never there for its callers. -/
def busy : ℕ → Attempt := fun _ => .response 503 (.ok []) [] none

/-- With 1026 attempts the wait after the 1025th raises an exception that is no provider error. -/
theorem overflow_escapes :
    let v : VLLMProvider := { maxRetries := 1026 }
    let h : PyHost := ⟨fun _ => .ok .none, fun _ => none, id⟩
    let g := v.generateStream .ascii h "hi" busy
    g.failure = some (.other "OverflowError" "int too large to convert to float") ∧
      g.requests = 1025 ∧ ¬NeverMixes v h busy g := by
  intro v h g
  have stopped : g =
      { chunks := [], failure := some (escaped tooLarge), requests := backoffLimit + 1 } := by
    have skipped : v.streamFrom .ascii h "hi" busy (backoffLimit + 1 + 1) 0 =
        v.streamFrom .ascii h "hi" busy (1 + 1) (0 + backoffLimit) :=
      streamFrom_skip backoffLimit (Nat.zero_add _).le fun _ _ => rfl
    show v.streamFrom .ascii h "hi" busy (backoffLimit + 1 + 1) 0 = _
    rw [skipped, Nat.zero_add, streamFrom_again rfl, if_neg one_ne_zero, if_pos le_rfl]
  rw [stopped]
  refine ⟨rfl, rfl, fun mixes => ?_⟩
  rcases mixes.ends with ⟨returned, -⟩ | ⟨f, raised, family, -⟩
  · cases returned
  · cases raised
    cases family

end VLLMProvider

end LLMInference
