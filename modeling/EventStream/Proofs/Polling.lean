import EventStream.Proofs.Outlook

/-!
What a poll can do. A poll takes in one arrival after the other for as long as the decoder idles,
and then there are five ways for it to come to its end. All that is known of polls follows from
these.
-/

namespace EventStream

def Feed.content : List Arrival → Bytes
  | [] => []
  | .chunk bytes :: rest => bytes ++ content rest
  | .failure _ :: _ => []

namespace Decoder

/-- A poll against arrivals, of which it leaves some. -/
inductive Polls (ended : Bool) : Decoder → List Arrival → Poll → Decoder → List Arrival → Prop where
  | answered {decoder next : Decoder} {queued : List Arrival} {poll : Poll}
      (found : decoder.answer = (some poll, next)) : Polls ended decoder queued poll next queued
  | pending {decoder next : Decoder} (idle : decoder.answer = (none, next))
      (unended : ended = false) : Polls ended decoder [] .pending next []
  | finished {decoder idle next : Decoder} {poll : Poll} (idles : decoder.answer = (none, idle))
      (past : ended = true) (found : idle.finish.answer = (some poll, next)) :
      Polls ended decoder [] poll next []
  | broken {decoder idle : Decoder} {message : String} {rest : List Arrival}
      (idles : decoder.answer = (none, idle)) :
      Polls ended decoder (.failure message :: rest) (.failed (.transport message)) idle.fail rest
  | chunk {decoder idle next : Decoder} {bytes : Bytes} {rest left : List Arrival} {poll : Poll}
      (idles : decoder.answer = (none, idle))
      (later : Polls ended (idle.accept bytes) rest poll next left) :
      Polls ended decoder (.chunk bytes :: rest) poll next left

theorem finish_answers {decoder : Decoder} (sound : decoder.Sound) :
    ∃ poll next, decoder.finish.answer = (some poll, next) := by
  cases found : decoder.finish.answer with
  | mk poll next =>
    cases poll with
    | some poll => exact ⟨poll, next, rfl⟩
    | none => cases (answer_idles sound.finish found).unended

theorem pollQueue_polls {decoder : Decoder} (sound : decoder.Sound) (ended : Bool) (taken : Nat)
    (queue : List Arrival) : Polls ended decoder queue (decoder.pollQueue ended taken queue).1
      (decoder.pollQueue ended taken queue).2.1
      (decoder.pollQueue ended taken queue).2.2.queued := by
  induction queue generalizing decoder taken with
  | nil =>
    unfold pollQueue
    split
    next poll next found => exact .answered found
    next idle idles =>
      by_cases past : ended = true
      · rw [if_pos past]
        obtain ⟨poll, next, found⟩ := finish_answers (answer_idles sound idles).sound
        rw [found]
        exact .finished idles past found
      · rw [if_neg past]
        exact .pending idles (Bool.eq_false_iff.mpr past)
  | cons arrival rest ih =>
    unfold pollQueue
    split
    next poll next found => exact .answered found
    next idle idles =>
      cases arrival with
      | chunk bytes =>
        exact .chunk idles (ih ((answer_idles sound idles).sound.accept bytes) (taken + 1))
      | failure message => exact .broken idles

theorem pollQueue_ended (decoder : Decoder) (ended : Bool) (taken : Nat) (queue : List Arrival) :
    (decoder.pollQueue ended taken queue).2.2.ended = ended := by
  induction queue generalizing decoder taken with
  | nil =>
    unfold pollQueue
    split
    next => rfl
    next => split <;> rfl
  | cons arrival rest ih =>
    unfold pollQueue
    split
    next => rfl
    next idle _ =>
      cases arrival with
      | chunk bytes => exact ih (idle.accept bytes) (taken + 1)
      | failure message => rfl

variable {ended : Bool} {decoder next : Decoder} {queue left : List Arrival} {poll : Poll}

theorem Polls.sound (polls : Polls ended decoder queue poll next left) (sound : decoder.Sound) :
    next.Sound := by
  induction polls with
  | answered found => exact (answer_gives sound found).sound
  | pending idles => exact (answer_idles sound idles).sound
  | finished idles _ found =>
    exact (answer_gives (answer_idles sound idles).sound.finish found).sound
  | broken idles => exact (answer_idles sound idles).sound.fail
  | chunk idles _ ih => exact ih ((answer_idles sound idles).sound.accept _)

theorem idle_accept {idle : Decoder} (sound : decoder.Sound)
    (idles : decoder.answer = (none, idle)) (bytes rest : Bytes) :
    (idle.accept bytes).outlook rest = decoder.outlook (bytes ++ rest) := by
  have kept := answer_idles sound idles
  rw [outlook_accept kept.unfinished, kept.outlook]

/-- A poll that gives something gives the first item of all that was still to come. Only a failure
of the transport is not among the items. -/
theorem Polls.outlook (polls : Polls ended decoder queue poll next left) (sound : decoder.Sound)
    (given : poll ≠ .pending) (carried : ∀ message, poll ≠ .failed (.transport message))
    (rest : Bytes) (last : ended = true → rest = []) :
    decoder.outlook (Feed.content queue ++ rest) = ⟨poll, next.lastEventId, next.retry⟩ ::
      if poll = .ended then [] else next.outlook (Feed.content left ++ rest) := by
  induction polls with
  | answered found => exact (answer_gives sound found).outlook _
  | pending => exact absurd rfl given
  | finished idles past found =>
    have kept := answer_idles sound idles
    rw [last past, ← kept.outlook, Feed.content, List.append_nil, ← outlook_finish kept.sound
      kept.working []]
    exact (answer_gives kept.sound.finish found).outlook []
  | broken => exact absurd rfl (carried _)
  | chunk idles _ ih =>
    have kept := (answer_idles sound idles).sound.accept
    rw [Feed.content, List.append_assoc, ← idle_accept sound idles]
    exact ih (kept _) given carried

theorem Polls.outlook_pending (polls : Polls ended decoder queue .pending next left)
    (sound : decoder.Sound) (rest : Bytes) : ended = false ∧ left = [] ∧
      next.outlook rest = decoder.outlook (Feed.content queue ++ rest) := by
  generalize same : Poll.pending = poll at polls
  induction polls with
  | answered found => exact absurd same.symm (answer_ne_pending found)
  | pending idles unended => exact ⟨unended, rfl, (answer_idles sound idles).outlook rest⟩
  | finished _ _ found => exact absurd same.symm (answer_ne_pending found)
  | broken => cases same
  | chunk idles _ ih =>
    have kept := (answer_idles sound idles).sound.accept
    rw [Feed.content, List.append_assoc, ← idle_accept sound idles]
    exact ih (kept _) same

theorem Polls.outlook_ended (polls : Polls ended decoder queue .ended next left)
    (sound : decoder.Sound) (rest : Bytes) (last : ended = true → rest = []) :
    next.outlook rest = decoder.outlook (Feed.content queue ++ rest) := by
  generalize same : Poll.ended = poll at polls
  induction polls with
  | answered found =>
    have gives := answer_gives sound found
    rw [gives.stays same.symm, gives.outlook, gives.outlook, if_pos same.symm]
    simp [same.symm]
  | pending => cases same
  | finished idles past found =>
    have kept := answer_idles sound idles
    rw [last past, (answer_gives kept.sound.finish found).stays same.symm,
      outlook_finish kept.sound kept.working, kept.outlook]
    rfl
  | broken => cases same
  | chunk idles _ ih =>
    have kept := (answer_idles sound idles).sound.accept
    rw [Feed.content, List.append_assoc, ← idle_accept sound idles]
    exact ih (kept _) same

theorem weight_accept_le (decoder : Decoder) (bytes : Bytes) :
    (decoder.accept bytes).weight ≤ decoder.weight + bytes.length := by
  unfold Decoder.accept
  dsimp only
  split
  next opening =>
    simp only [Decoder.weight, opening, reduceCtorEq, if_false]
    split
    next =>
      simp only [LineBuffer.push, LineBuffer.discard, List.length_drop, List.length_append,
        reduceCtorEq, if_false]
      omega
    all_goals
      simp only [LineBuffer.push, List.length_append, reduceCtorEq, if_false]
      omega
  next =>
    simp only [Decoder.weight, LineBuffer.push, List.length_append]
    omega

theorem weight_idles {idle : Decoder} (idles : Idles decoder idle) :
    idle.weight ≤ decoder.weight := by
  have shorter := idles.shorter
  simp only [Decoder.weight, if_neg idles.started, if_neg idles.working]
  omega

theorem Polls.weight (polls : Polls ended decoder queue poll next left) (sound : decoder.Sound)
    (given : poll ≠ .pending) (more : poll ≠ .ended) :
    next.weight + Feed.byteCount left < decoder.weight + Feed.byteCount queue := by
  induction polls with
  | answered found =>
    have nearer := answer_weight sound found more
    omega
  | pending => exact absurd rfl given
  | finished idles past found =>
    have kept := answer_idles sound idles
    have nearer := answer_weight kept.sound.finish found more
    have idle := weight_idles kept
    simp only [Decoder.weight, Decoder.finish, LineBuffer.finish, if_neg kept.working,
      reduceCtorEq, if_false] at nearer idle ⊢
    omega
  | broken idles =>
    have kept := answer_idles sound idles
    have shorter := kept.shorter
    simp only [Decoder.weight, Decoder.fail, if_neg kept.started, if_true, Feed.byteCount]
    omega
  | @chunk decoder waiting next bytes rest left poll idles later ih =>
    have kept := answer_idles sound idles
    have nearer := ih (kept.sound.accept bytes) given more
    have idle := weight_idles kept
    have taken := weight_accept_le waiting bytes
    simp only [Feed.byteCount]
    omega

theorem readLines_ne_transport (lines next : LineBuffer) (record after : Record)
    (message : String) : readLines lines record ≠ (.failed (.transport message), next, after) := by
  intro found
  fun_induction readLines lines record with
  | case1 => cases found
  | case2 => cases found
  | case3 => cases found
  | case4 => cases found
  | case5 lines record content rest taken line parsed after read ih => exact ih found

theorem answer_ne_transport {message : String} :
    decoder.answer ≠ (some (.failed (.transport message)), next) := by
  intro found
  unfold answer at found
  split at found
  next => cases found
  next => cases found
  next =>
    split at found
    next => cases found
    next error lines record read =>
      cases found
      exact readLines_ne_transport _ _ _ _ _ read
    next => split at found <;> cases found

theorem Polls.unbroken (polls : Polls ended decoder queue poll next left)
    (unbroken : ∀ message, .failure message ∉ queue) :
    (∀ message, poll ≠ .failed (.transport message)) ∧ ∀ message, .failure message ∉ left := by
  induction polls with
  | answered found => exact ⟨by rintro message rfl; exact answer_ne_transport found, unbroken⟩
  | pending => exact ⟨nofun, unbroken⟩
  | finished _ _ found => exact ⟨by rintro message rfl; exact answer_ne_transport found, unbroken⟩
  | broken => exact absurd List.mem_cons_self (unbroken _)
  | chunk _ _ ih => exact ih fun message inside => unbroken message (List.mem_cons_of_mem _ inside)

theorem poll_polls {feed left : Feed} (sound : decoder.Sound)
    (found : decoder.poll feed = (poll, next, left)) :
    Polls feed.ended decoder feed.queued poll next left.queued ∧ left.ended = feed.ended := by
  have polls := pollQueue_polls sound feed.ended feed.taken feed.queued
  have ended := pollQueue_ended decoder feed.ended feed.taken feed.queued
  rw [Decoder.poll] at found
  rw [found] at polls ended
  exact ⟨polls, ended⟩

def Polled.item (polled : Polled) : Item :=
  ⟨polled.poll, polled.decoder.lastEventId, polled.decoder.retry⟩

theorem polls_outlook {limit : Nat} {decoder : Decoder} {feed : Feed} (sound : decoder.Sound)
    (ended : feed.ended = true) (unbroken : ∀ message, .failure message ∉ feed.queued)
    (enough : decoder.weight + Feed.byteCount feed.queued < limit) :
    (polls limit decoder feed).map Polled.item = decoder.outlook (Feed.content feed.queued) := by
  induction limit generalizing decoder feed with
  | zero => omega
  | succ limit ih =>
    unfold polls
    cases found : decoder.poll feed with
    | mk poll state =>
      obtain ⟨next, left⟩ := state
      obtain ⟨polls, kept⟩ := poll_polls sound found
      obtain ⟨carried, unbroken⟩ := polls.unbroken unbroken
      have later (given : poll ≠ .pending) (more : poll ≠ .ended) :
          (Decoder.polls limit next left).map Polled.item =
            next.outlook (Feed.content left.queued) := by
        have nearer := polls.weight sound given more
        exact ih (polls.sound sound) (kept.trans ended) unbroken (by omega)
      have first (given : poll ≠ .pending) := polls.outlook sound given carried [] fun _ => rfl
      simp only [List.append_nil] at first
      cases poll with
      | pending => exact absurd (polls.outlook_pending sound []).1 (by simp [ended])
      | ended => rw [first nofun]; rfl
      | event event =>
        rw [first nofun, if_neg nofun, ← later nofun nofun]
        rfl
      | failed error =>
        rw [first nofun, if_neg nofun, ← later nofun nofun]
        rfl

/-- To poll until there is nothing more to give is to poll often enough. -/
theorem drain_outlook {decoder : Decoder} {feed : Feed} (sound : decoder.Sound)
    (ended : feed.ended = true) (unbroken : ∀ message, .failure message ∉ feed.queued) :
    (decoder.drain feed).map Polled.item = decoder.outlook (Feed.content feed.queued) := by
  apply polls_outlook sound ended unbroken
  unfold Decoder.weight
  split <;> omega

end Decoder

end EventStream
