import EventStream.Proofs.Polling
import EventStream.Source.Basic

/-!
A body in use, where chunks arrive and polls are made in any order. The items that come of it and
the polls to the end behind them are what one pass over the whole stream comes to.
-/

namespace EventStream

namespace Body

inductive Step where
  | arrive (arrival : Arrival)
  | finish
  | poll
  deriving DecidableEq, Repr

def polled (body : Body) : Poll × Body :=
  let (poll, decoder, feed) := body.decoder.poll body.feed
  (poll, ⟨decoder, feed⟩)

def step (body : Body) : Step → Body
  | .arrive arrival => { body with feed := body.feed.push arrival }
  | .finish => { body with feed := body.feed.close }
  | .poll => body.polled.2

def run (body : Body) (steps : List Step) : Body := steps.foldl step body

def gives (body : Body) : Step → List Item
  | .arrive _ | .finish => []
  | .poll =>
    match body.polled.1 with
    | .pending | .ended => []
    | poll => [⟨poll, body.polled.2.decoder.lastEventId, body.polled.2.decoder.retry⟩]

def items (body : Body) : List Step → List Item
  | [] => []
  | step :: rest => body.gives step ++ (body.step step).items rest

structure Flowing (body : Body) : Prop where
  sound : body.decoder.Sound
  unended : body.feed.ended = false
  unbroken : ∀ message, .failure message ∉ body.feed.queued

/-- Everything that the body will give if `rest` arrives on it before its end. -/
def outlook (body : Body) (rest : Bytes) : List Item :=
  body.decoder.outlook (Feed.content body.feed.queued ++ rest)

theorem content_append {queue : List Arrival} (unbroken : ∀ message, .failure message ∉ queue)
    (bytes : Bytes) : Feed.content (queue ++ [.chunk bytes]) = Feed.content queue ++ bytes := by
  induction queue with
  | nil => simp [Feed.content]
  | cons arrival queue ih =>
    cases arrival with
    | chunk first =>
      rw [List.cons_append, Feed.content, Feed.content, List.append_assoc]
      rw [ih fun message inside => unbroken message (List.mem_cons_of_mem _ inside)]
    | failure message => exact absurd List.mem_cons_self (unbroken message)

theorem Flowing.arrive {body : Body} (flowing : body.Flowing) (bytes : Bytes) :
    (body.step (.arrive (.chunk bytes))).Flowing := by
  refine ⟨flowing.sound, flowing.unended, ?_⟩
  intro message inside
  rcases List.mem_append.mp inside with earlier | latest
  · exact flowing.unbroken message earlier
  · simp at latest

theorem outlook_arrive {body : Body} (flowing : body.Flowing) (bytes rest : Bytes) :
    (body.step (.arrive (.chunk bytes))).outlook rest = body.outlook (bytes ++ rest) := by
  simp only [outlook, step, Feed.push]
  rw [content_append flowing.unbroken, List.append_assoc]

theorem outlook_poll {body : Body} (flowing : body.Flowing) (rest : Bytes) :
    (body.step .poll).Flowing ∧
      body.outlook rest = body.gives .poll ++ (body.step .poll).outlook rest := by
  cases found : body.decoder.poll body.feed with
  | mk poll state =>
    obtain ⟨next, left⟩ := state
    obtain ⟨polls, kept⟩ := Decoder.poll_polls flowing.sound found
    obtain ⟨carried, unbroken⟩ := polls.unbroken flowing.unbroken
    have first (given : poll ≠ .pending) (more : Bytes) :=
      polls.outlook flowing.sound given carried more (by simp [flowing.unended])
    refine ⟨?_, ?_⟩
    · simp only [step, polled, found]
      exact ⟨polls.sound flowing.sound, kept.trans flowing.unended, unbroken⟩
    · simp only [outlook, step, gives, polled, found]
      cases poll with
      | pending =>
        obtain ⟨-, empty, same⟩ := polls.outlook_pending flowing.sound rest
        rw [empty, ← same]
        rfl
      | ended =>
        -- Only a decoder that failed can be at the end here, and then nothing that arrives counts.
        have stays := polls.outlook_ended flowing.sound (Feed.content left.queued ++ rest)
          (by simp [flowing.unended])
        rw [stays, first nofun, first nofun]
        rfl
      | event event => exact first nofun rest
      | failed error => exact first nofun rest

/-- Chunks that arrive on a body, and between them polls. -/
def schedule (turns : List (Option Bytes)) : List Step :=
  turns.map fun
    | some bytes => .arrive (.chunk bytes)
    | none => .poll

theorem outlook_schedule {body : Body} (flowing : body.Flowing) (turns : List (Option Bytes))
    (rest : Bytes) :
    (body.run (schedule turns)).Flowing ∧
      body.outlook ((turns.filterMap id).flatten ++ rest) =
        body.items (schedule turns) ++ (body.run (schedule turns)).outlook rest := by
  induction turns generalizing body with
  | nil => exact ⟨flowing, rfl⟩
  | cons turn turns ih =>
    cases turn with
    | some bytes =>
      obtain ⟨kept, later⟩ := ih (flowing.arrive bytes)
      refine ⟨kept, ?_⟩
      rw [outlook_arrive flowing, ← List.append_assoc] at later
      exact later
    | none =>
      obtain ⟨polled, first⟩ := outlook_poll flowing ((turns.filterMap id).flatten ++ rest)
      obtain ⟨kept, later⟩ := ih polled
      refine ⟨kept, ?_⟩
      calc body.outlook ((turns.filterMap id).flatten ++ rest)
        _ = body.gives .poll ++ ((body.step .poll).items (schedule turns) ++
              ((body.step .poll).run (schedule turns)).outlook rest) := by rw [first, later]
        _ = _ := (List.append_assoc _ _ _).symm

/-- What comes of chunks, polled at any time on the way and then to the end. -/
theorem items_outlook {body : Body} (flowing : body.Flowing) (turns : List (Option Bytes)) :
    let left := body.run (schedule turns)
    body.items (schedule turns) ++ (left.decoder.drain left.feed.close).map Decoder.Polled.item =
      body.outlook (turns.filterMap id).flatten := by
  intro left
  obtain ⟨kept, whole⟩ := outlook_schedule flowing turns []
  have last := @Decoder.drain_outlook left.decoder left.feed.close kept.sound rfl kept.unbroken
  have rest : left.outlook [] = left.decoder.outlook (Feed.content left.feed.queued) := by
    rw [outlook, List.append_nil]
  rw [List.append_nil, rest] at whole
  exact whole.symm ▸ congrArg _ last

def fresh (maxLine : Option Nat) (resumeId : Bytes) (retry : Duration) : Body :=
  ⟨.start maxLine resumeId retry, .empty⟩

theorem flowing_fresh (maxLine : Option Nat) (resumeId : Bytes) (retry : Duration) :
    (fresh maxLine resumeId retry).Flowing :=
  ⟨Decoder.sound_start maxLine resumeId retry, rfl, fun _ => List.not_mem_nil⟩

/-- However a stream is cut, and whenever it is polled on the way, the items before its end and
those of the polls to its end are the items of the one pass over all of its bytes. -/
theorem items_transcript (maxLine : Option Nat) (resumeId : Bytes) (retry : Duration)
    (turns : List (Option Bytes)) :
    let opened := fresh maxLine resumeId retry
    let left := opened.run (schedule turns)
    opened.items (schedule turns) ++
        (left.decoder.drain left.feed.close).map Decoder.Polled.item =
      OnePass.transcript maxLine resumeId retry (turns.filterMap id).flatten := by
  intro opened left
  obtain ⟨flowing, whole⟩ := outlook_schedule (flowing_fresh maxLine resumeId retry) turns []
  have last : (left.decoder.drain left.feed.close).map Decoder.Polled.item = left.outlook [] := by
    rw [outlook, List.append_nil]
    exact @Decoder.drain_outlook left.decoder left.feed.close flowing.sound rfl flowing.unbroken
  rw [last, ← whole, List.append_nil]
  exact Decoder.outlook_start maxLine resumeId retry _

/-- The two bytes of a line end and those of a mark may come apart, and a poll in between. -/
example :
    let turns :=
      [some [239], none, some [187, 191, 100, 97, 116, 97, 13], none, some [10, 13, 97], none]
    (fresh none [] ⟨3⟩).items (schedule turns) = [⟨.event ⟨[], [], []⟩, [], ⟨3⟩⟩] := by
  decide +kernel

end Body

end EventStream
