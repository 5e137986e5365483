import EventStream.Proofs.Chronicle
import EventStream.Proofs.Replay

/-!
The request of an attempt. Settings that can be used come to a request for every id, and there is
nothing in them that a later attempt would find changed. By name, and whatever the case of the name
is, a field of the request has the value that the job asks for or those of the settings.
-/

namespace EventStream

theorem Config.usable_uri {config : Config} (usable : config.fault? = none) :
    ∃ uri, Uri.parse (Bytes.ofText config.url) = .ok uri ∧ uri.isAbsolute = true := by
  unfold fault? at usable
  split at usable
  next => cases usable
  next =>
    split at usable
    next => cases usable
    next uri parsed =>
      split at usable
      next => cases usable
      next absolute => exact ⟨uri, parsed, by simpa using absolute⟩

namespace Session

theorem run_built {config : Config} {source : Source} (created : Source.create config = .ok source)
    (actions : List Action) {request : Request}
    (called : request ∈ (calls ((start source).run actions).history).map Prod.snd) :
    ∃ connection earlier, connection :: earlier <:+ (start source).log actions [] ∧
      Request.build config (lastId (yielded earlier)) = .ok request := by
  have logged := (run_accounted created actions).logged
  have settings := (run_reaches created actions).1
  rw [run_requests, List.mem_reverse] at called
  obtain ⟨connection, inside, rfl⟩ := List.mem_map.mp called
  obtain ⟨later, earlier, split⟩ := List.append_of_mem inside
  have suffix : connection :: earlier <:+ (start source).log actions [] := ⟨later, split.symm⟩
  exact ⟨connection, earlier, suffix, settings ▸ (logged.linked connection earlier suffix).request⟩

/-- With settings that can be used no request fails to be made. It asks for the place that the
settings name, and under every name, in any case, it has the value of the job, the id among them if
a header can carry it, or else all values of the settings in their order. Over a whole run the
settings stay, so that an attempt is never refused for them, however often the source goes back. -/
theorem requests_exact {config : Config} (usable : config.fault? = none)
    {fields : List (Bytes × Bytes)} (headers : config.headers = Headers.ofList fields) :
    (∃ uri, Uri.parse (Bytes.ofText config.url) = .ok uri ∧ uri.isAbsolute = true ∧
      ∀ id, ∃ request, Request.build config id = .ok request ∧ Request.method = "GET" ∧
        request.uri = uri ∧ ∀ name, request.headers.values name.lower =
          if Bytes.sameText name (Bytes.ofText "Last-Event-ID") ∧ Request.Sendable id then [id]
          else if Bytes.sameText name (Bytes.ofText "Cache-Control") then [Bytes.ofText "no-cache"]
          else if Bytes.sameText name (Bytes.ofText "Accept") then [Bytes.ofText "text/event-stream"]
          else Headers.given fields name) ∧
    ∃ source, Source.create config = .ok source ∧ ∀ actions,
      let session := (start source).run actions
      session.source.config = config ∧
        (∀ now, ∃ request call, session.source.call now = .ok (request, call)) ∧
        ∀ request ∈ (calls session.history).map Prod.snd, ∃ id,
          Request.build config id = .ok request := by
  obtain ⟨uri, parsed, absolute⟩ := config.usable_uri usable
  have built (id : Bytes) :
      Request.build config id = .ok ⟨uri, Request.headersFor config id⟩ := by
    rw [Request.build, parsed]
  refine ⟨⟨uri, parsed, absolute, ?_⟩, ?_⟩
  · intro id
    refine ⟨_, built id, rfl, rfl, ?_⟩
    intro name
    have accept : name.lower = Headers.accept ↔ _ :=
      Bytes.lower_eq_iff (show (Bytes.ofText "Accept").lower = _ by decide +kernel)
    have control : name.lower = Headers.cacheControl ↔ _ :=
      Bytes.lower_eq_iff (show (Bytes.ofText "Cache-Control").lower = _ by decide +kernel)
    have lastId : name.lower = Headers.lastEventId ↔ _ :=
      Bytes.lower_eq_iff (show (Bytes.ofText "Last-Event-ID").lower = _ by decide +kernel)
    simp only [Request.headersFor_values, headers, Headers.values_ofList, accept, control, lastId,
      Request.noCache, Request.eventStreamType]
  · obtain ⟨source, created⟩ : ∃ source, Source.create config = .ok source := by
      rw [Source.create, usable]
      exact ⟨_, rfl⟩
    refine ⟨source, created, ?_⟩
    intro actions session
    have settings : session.source.config = config := (run_reaches created actions).1
    refine ⟨settings, ?_, ?_⟩
    · intro now
      rw [Source.call, settings, built]
      exact ⟨_, _, rfl⟩
    · intro request called
      obtain ⟨-, earlier, -, same⟩ := run_built created actions called
      exact ⟨_, same⟩

/-- Settings with a name in two cases and twice, and with names of the job. The id is sent with the
octets that it has, and one that holds a line feed leaves the one of the settings in its place. -/
theorem requests_exact_colliding :
    let fields := [(Bytes.ofText "X-A", [49]), (Bytes.ofText "ACCEPT", [50]),
      (Bytes.ofText "last-event-id", [51]), (Bytes.ofText "x-a", [52])]
    let config := { Config.forUrl "http://a/" with headers := Headers.ofList fields }
    config.fault? = none ∧
      (∃ request, Request.build config [195, 169] = .ok request ∧
        request.headers.values (Bytes.ofText "Last-Event-ID").lower = [[195, 169]] ∧
        request.headers.values (Bytes.ofText "X-a").lower = [[49], [52]]) ∧
      ∃ request, Request.build config [10] = .ok request ∧
        request.headers.values (Bytes.ofText "Last-Event-ID").lower = [[51]] := by
  intro fields config
  have usable : config.fault? = none := by decide +kernel
  obtain ⟨⟨uri, -, -, builds⟩, -⟩ := @requests_exact config usable fields rfl
  obtain ⟨request, built, -, -, values⟩ := builds [195, 169]
  obtain ⟨other, rebuilt, -, -, others⟩ := builds [10]
  refine ⟨usable, ⟨request, built, ?_, ?_⟩, other, rebuilt, ?_⟩
  · rw [values]
    decide +kernel
  · rw [values]
    decide +kernel
  · rw [others]
    decide +kernel

end Session

end EventStream
