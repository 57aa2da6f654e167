import AoSdl.HttpChunkedBody
import AoSdl.MountManager

/-! A file that is streamed from the first HTTP mount that has it. The chunks go to the consumer while they
come in, before the status is judged, and the next mount is tried with the same consumer. -/
namespace AoSdl.MountManager
open http http.client Lib.Arrivals Lib.Framing

/-- What the pool and the network do with one download: it is dropped, or a worker asks with its client,
whose kept connection is idle or not and brings what comes on it, as a fresh one would. -/
inductive Attempt where
  | dropped
  | h1 (client : ClientImpl) (idle : Bool) (kept : Prospect) (fresh : Option Prospect)

/-- The request that streams, to a consumer. -/
def exchange (receiver : ContentReceiver) : Exchange := { method := bytes "GET", content_receiver := some receiver }

/-- The answer that the callback gets, and the chunks that the consumer is handed. -/
def Attempt.stream (receiver : ContentReceiver) : Attempt → Answer × List Bytes
  | .dropped => (.dropped, [])
  | .h1 client idle kept fresh =>
    let result := (client.execute_request (exchange receiver) idle kept fresh).1
    (.answered (result.res.elim 0 Response.status) [], result.handed)

/-- A mount when its turn comes, what its download comes to, and the body that its server serves. -/
structure Source where
  mount : MountHttp
  attempt : Attempt
  body : Bytes

/-- The chunks passed to the consumer, the answer, the body served where it succeeded, and the mounts. -/
structure Fetched where
  chunks : List Bytes
  found : Bool
  served : Bytes
  mounts : List MountHttp

/-- `on_chunk` answers to the last of the chunks that it was passed so far. -/
def fetch_streaming (path : Bytes) (on_chunk : ContentReceiver) : List Bytes → List Source → Fetched
  | chunks, [] => ⟨chunks, false, [], []⟩
  | chunks, source :: rest =>
    match source.mount.fetch_streaming path with
    | .failed =>
      let fetched := fetch_streaming path on_chunk chunks rest
      { fetched with mounts := source.mount :: fetched.mounts }
    | .cached data => ⟨chunks ++ [data], true, data, source.mount :: rest.map Source.mount⟩
    | .waiting download =>
      let (resp, handed) := source.attempt.stream fun given => on_chunk (chunks ++ given)
      let (mount, ok) := source.mount.on_streamed download.path resp (!handed.isEmpty)
      if ok then ⟨chunks ++ handed, true, source.body, mount :: rest.map Source.mount⟩
      else
        let fetched := fetch_streaming path on_chunk (chunks ++ handed) rest
        { fetched with mounts := mount :: fetched.mounts }

/-- When it returns true the chunks are the body of the mount that succeeded, and else there are none. -/
def OneFile (fetched : Fetched) : Prop :=
  (fetched.found = true → fetched.chunks.flatten = fetched.served) ∧
  (fetched.found = false → fetched.chunks = [])

section Wires

/-- The head of the response with what came behind it, and the wire, once the client is at the body; or why
it does not get there. -/
def reply (client : ClientImpl) (idle : Bool) (kept : Prospect) (fresh : Option Prospect) :
    Except Error (Bytes × Wire) :=
  let ask_fresh : Except Error (Bytes × Wire) :=
    match fresh with
    | none => .error .Connection
    | some fresh =>
      if fresh.sends then
        let (raw_resp, w) := final_headers (Connection.ask {} fresh.reply)
        if raw_resp.isEmpty then .error .Read else .ok (raw_resp, w)
      else .error .Write
  if client.is_stopping_ then .error .Connection
  else
    match client.socket_ with
    | none => ask_fresh
    | some conn =>
      if idle && kept.sends then
        let (raw_resp, w) := final_headers (conn.ask kept.reply)
        if raw_resp.isEmpty then ask_fresh else .ok (raw_resp, w)
      else ask_fresh

/-- A response: its head as it is parsed, with what came behind it, and the wire with what comes then. -/
structure Incoming where
  head : ParsedResponse
  wire : Wire

def Attempt.incoming : Attempt → Option Incoming
  | .dropped => none
  | .h1 client idle kept fresh =>
    (reply client idle kept fresh).toOption.map fun (raw_resp, w) => ⟨parse_response_headers raw_resp, w⟩

namespace Incoming

variable (i : Incoming)

/-- The bytes behind the head that come before a read fails. -/
def arriving : Bytes := i.head.body_start ++ coming i.wire.line

/-- Nothing of a body is on the wire: no chunk begins, no byte of a body with a length comes, and of any
other body none came with the head. -/
def Silent : Prop :=
  if is_chunked i.head.headers then
    ∀ line behind, cutAt 13 10 i.arriving = some (line, behind) →
      line_number line = none ∨ line_number line = some 0 ∨ behind = []
  else if 0 < get_content_length i.head.headers then i.arriving = []
  else i.head.body_start = []

/-- The body is on the wire, whole: in chunks with all that ends them, or as many bytes as the head says, of
which the consumer refuses no beginning; a body of no length came with the head. -/
def Whole (on_chunk : ContentReceiver) (body : Bytes) : Prop :=
  if is_chunked i.head.headers then
    ∃ chunks text, Encodes chunks text ∧ text <+: i.arriving ∧ chunks.flatten = body
  else if 0 < get_content_length i.head.headers then
    get_content_length i.head.headers = body.length ∧ i.head.body_start.length ≤ body.length ∧
      body <+: i.arriving ∧ Takes on_chunk body
  else i.head.body_start = body

end Incoming

end Wires

/-- The mounts that are asked and come to nothing send nothing of a body, and the one behind them that answers
with 200 sends its body whole. -/
def Orderly (path : Bytes) (on_chunk : ContentReceiver) : List Source → Prop
  | [] => True
  | source :: rest =>
    match source.mount.fetch_streaming path with
    | .failed => Orderly path on_chunk rest
    | .cached _ => True
    | .waiting _ =>
      (∃ i, source.attempt.incoming = some i ∧ i.head.status = 200 ∧ source.body ≠ [] ∧
        i.Whole on_chunk source.body) ∨
      ((∀ i, source.attempt.incoming = some i → i.Silent) ∧ Orderly path on_chunk rest)

section Readers

variable {w : Wire} {pending line rest text body body_start : Bytes}

theorem read_chunks_silent {fuel : ℕ}
    (silent : ∀ line behind, cutAt 13 10 (pending ++ coming w.line) = some (line, behind) →
      line_number line = none ∨ line_number line = some 0 ∨ behind = []) :
    (read_chunks fuel body pending w).1 = body := by
  induction fuel generalizing pending w with
  | zero => rfl
  | succ fuel ih =>
    cases cut : cutAt 13 10 (pending ++ coming w.line) with
    | none => rw [(read_chunks_none fuel body (read_line_uncut cut)).1]
    | some parts =>
      obtain ⟨line, behind⟩ := parts
      obtain ⟨left, here, drawn⟩ := read_line_coming cut
      by_cases stops : line_number line = none ∨ line_number line = some 0
      · rw [(read_chunks_stop fuel body here stops).1]
      · obtain ⟨none, zero⟩ := not_or.mp stops
        obtain rfl : behind = [] := ((silent line behind cut).resolve_left none).resolve_left zero
        obtain ⟨n, number⟩ := Option.ne_none_iff_exists'.mp none
        have positive : n ≠ 0 := by
          rintro rfl
          exact zero number
        rw [(read_chunks_some fuel body here number positive).1]
        generalize (n + 2) % 2 ^ 64 = needed
        have nothing : (read_more needed left (read_line pending w).2).1 = [] := by
          have more := read_more_drawn needed left (read_line pending w).2
          rw [drawn] at more
          rcases more with ⟨-, all⟩ | ⟨-, all⟩
          · exact (List.append_eq_nil_iff.mp all).1
          · exact all
        split
        · next enough =>
          have dry := (read_more_coming needed left (read_line pending w).2
            (by rw [nothing] at enough; exact enough.trans (Nat.zero_le _))).2
          rw [nothing, drawn, List.nil_append] at dry
          rw [nothing, List.take_nil, List.drop_nil, List.append_nil]
          refine ih fun line behind later => ?_
          rw [dry, List.append_nil] at later
          cases later
        · rw [nothing, List.take_nil, List.append_nil]

end Readers

section Client

theorem execute_request_reply (client : ClientImpl) (e : Exchange) (idle : Bool) (kept : Prospect)
    (fresh : Option Prospect) :
    (client.execute_request e idle kept fresh).1 =
      match reply client idle kept fresh with
      | .error error => { error }
      | .ok (raw_resp, w) => (receive_response client.keep_alive_ e raw_resp w).1 := by
  have asked : (client.ask_fresh e fresh).1 =
      match (match fresh with
        | none => .error .Connection
        | some fresh =>
          if fresh.sends then
            let (raw_resp, w) := final_headers (Connection.ask {} fresh.reply)
            if raw_resp.isEmpty then .error .Read else .ok (raw_resp, w)
          else .error .Write : Except Error (Bytes × Wire)) with
      | .error error => { error }
      | .ok (raw_resp, w) => (receive_response client.keep_alive_ e raw_resp w).1 := by
    unfold ClientImpl.ask_fresh
    cases fresh with
    | none => rfl
    | some fresh =>
      simp only
      split
      · split <;> rfl
      · rfl
  unfold ClientImpl.execute_request reply
  split
  · rfl
  · cases client.socket_ with
    | none => exact asked
    | some conn =>
      simp only
      split
      · split
        · exact asked
        · rfl
      · exact asked

/-- What a consumer is handed of a response. -/
def Incoming.handed (receiver : ContentReceiver) (i : Incoming) : List Bytes :=
  (receive_body (exchange receiver) i.head i.wire).1.2.1

theorem receive_response_exchange (keep_alive_ : Bool) (receiver : ContentReceiver) (raw_resp : Bytes)
    (w : Wire) :
    let pr := parse_response_headers raw_resp
    let received := (receive_body (exchange receiver) pr w).1
    (receive_response keep_alive_ (exchange receiver) raw_resp w).1 =
      { res := some { status := pr.status, headers := pr.headers, body := received.1 }
        error := .Success
        handed := received.2.1 } := by
  intro pr received
  have no_handler : ((exchange receiver).response_handler.any fun response_handler =>
      !response_handler { status := pr.status, headers := pr.headers }) = false := rfl
  unfold receive_response
  simp only
  rw [if_neg (by rw [no_handler]; exact Bool.false_ne_true)]

theorem stream_incoming {a : Attempt} {i : Incoming} (comes : a.incoming = some i)
    (receiver : ContentReceiver) : a.stream receiver = (.answered i.head.status [], i.handed receiver) := by
  cases a with
  | dropped => cases comes
  | h1 client idle kept fresh =>
    simp only [Attempt.incoming] at comes
    simp only [Attempt.stream, execute_request_reply]
    cases answer : reply client idle kept fresh with
    | error error =>
      rw [answer] at comes
      cases comes
    | ok read =>
      rw [answer] at comes
      cases comes
      simp only
      rw [receive_response_exchange]
      rfl

theorem stream_nothing {a : Attempt} (nothing : a.incoming = none) (receiver : ContentReceiver) :
    (a.stream receiver).2 = [] ∧ ∀ body, (a.stream receiver).1 ≠ .answered 200 body := by
  cases a with
  | dropped => exact ⟨rfl, nofun⟩
  | h1 client idle kept fresh =>
    simp only [Attempt.incoming] at nothing
    simp only [Attempt.stream, execute_request_reply]
    cases answer : reply client idle kept fresh with
    | error error => exact ⟨rfl, nofun⟩
    | ok read =>
      rw [answer] at nothing
      cases nothing

end Client

section Bodies

variable {i : Incoming} {receiver : ContentReceiver} {body : Bytes}

theorem handed_eq (i : Incoming) (receiver : ContentReceiver) : i.handed receiver =
    if is_chunked i.head.headers then
      if (read_chunked_body i.head.body_start i.wire).1.isEmpty then []
      else [(read_chunked_body i.head.body_start i.wire).1]
    else if 0 < get_content_length i.head.headers then
      (read_body_streaming i.head.body_start (get_content_length i.head.headers) receiver i.wire).1.1
    else if i.head.body_start.isEmpty then [] else [i.head.body_start] := by
  unfold Incoming.handed receive_body exchange
  simp only
  split
  · rfl
  · split <;> rfl

theorem flatten_optional (piece : Bytes) : (if piece.isEmpty then [] else [piece]).flatten = piece := by
  split
  · next empty => rw [List.isEmpty_iff.mp empty, List.flatten_nil]
  · exact List.flatten_singleton

theorem Incoming.Silent.handed (silent : i.Silent) (receiver : ContentReceiver) : i.handed receiver = [] := by
  unfold Incoming.Silent Incoming.arriving at silent
  rw [handed_eq]
  split
  · next chunked =>
    rw [if_pos chunked] at silent
    have nothing : (read_chunked_body i.head.body_start i.wire).1 = [] := read_chunks_silent silent
    rw [nothing, if_pos List.isEmpty_nil]
  · next unchunked =>
    rw [if_neg unchunked] at silent
    split
    · next length =>
      rw [if_pos length] at silent
      obtain ⟨_, streamed, -⟩ :=
        read_body_streaming_exit i.head.body_start (get_content_length i.head.headers) receiver i.wire
      exact streamed.filled (List.append_eq_nil_iff.mp (streamed.all.trans silent)).1
    · next no_length =>
      rw [if_neg no_length] at silent
      rw [silent, if_pos List.isEmpty_nil]

/-- The pieces of a body that comes whole are the body. -/
theorem Incoming.Whole.handed (whole : i.Whole receiver body) : (i.handed receiver).flatten = body := by
  unfold Incoming.Whole Incoming.arriving at whole
  rw [handed_eq]
  split
  · next chunked =>
    rw [if_pos chunked] at whole
    obtain ⟨chunks, text, encodes, front, data⟩ := whole
    rw [flatten_optional, read_chunks_coming encodes front, data]
  · next unchunked =>
    rw [if_neg unchunked] at whole
    split
    · next length =>
      rw [if_pos length] at whole
      obtain ⟨same, fits, front, takes⟩ := whole
      rw [same]
      exact read_body_streaming_coming fits front takes
    · next no_length =>
      rw [if_neg no_length] at whole
      rw [flatten_optional, whole]

/-- A response is not chunked, and a Content-Length that it has is the length of the body. -/
def Incoming.Plain (i : Incoming) (body : Bytes) : Prop :=
  is_chunked i.head.headers = false ∧
    (0 < get_content_length i.head.headers → get_content_length i.head.headers = body.length)

theorem silent_of_handed (plain : i.Plain body) (nothing : i.handed receiver = []) : i.Silent := by
  obtain ⟨unchunked, -⟩ := plain
  unfold Incoming.Silent Incoming.arriving
  rw [handed_eq] at nothing
  simp only [unchunked, Bool.false_eq_true, if_false] at nothing ⊢
  split
  · next length =>
    rw [if_pos length] at nothing
    obtain ⟨last, streamed, -, ends⟩ :=
      read_body_streaming_exit i.head.body_start (get_content_length i.head.headers) receiver i.wire
    rw [← streamed.all, nothing]
    rcases ends with refused | long | dry
    · exact absurd nothing (streamed.refused refused).1
    · rw [nothing] at long
      exact absurd length (Nat.not_lt.mpr long)
    · rw [dry]
      rfl
  · next no_length =>
    rw [if_neg no_length] at nothing
    rw [← flatten_optional i.head.body_start, nothing, List.flatten_nil]

theorem handed_filled (plain : i.Plain body) (nothing : (i.handed receiver).flatten = []) :
    i.handed receiver = [] := by
  obtain ⟨unchunked, -⟩ := plain
  rw [handed_eq] at nothing ⊢
  simp only [unchunked, Bool.false_eq_true, if_false] at nothing ⊢
  split
  · next length =>
    rw [if_pos length] at nothing
    obtain ⟨_, streamed, -⟩ :=
      read_body_streaming_exit i.head.body_start (get_content_length i.head.headers) receiver i.wire
    exact streamed.filled nothing
  · next no_length =>
    rw [if_neg no_length, flatten_optional] at nothing
    rw [nothing, if_pos List.isEmpty_nil]

theorem whole_of_handed (plain : i.Plain body) (takes : Takes receiver body)
    (same : (i.handed receiver).flatten = body) : i.Whole receiver body := by
  obtain ⟨unchunked, length_of⟩ := plain
  unfold Incoming.Whole Incoming.arriving
  rw [handed_eq] at same
  simp only [unchunked, Bool.false_eq_true, if_false] at same ⊢
  split
  · next length =>
    rw [if_pos length] at same
    obtain ⟨last, streamed, -⟩ :=
      read_body_streaming_exit i.head.body_start (get_content_length i.head.headers) receiver i.wire
    have all := streamed.all
    have front := streamed.front
    rw [same] at all front
    exact ⟨length_of length, front.length_le, ⟨coming last.line, all⟩, takes⟩
  · next no_length =>
    rw [if_neg no_length, flatten_optional] at same
    exact same

end Bodies

section Mounts

variable {path : Bytes} {on_chunk : ContentReceiver} {sources : List Source}

theorem on_streamed_success (m : MountHttp) (path : Bytes) (resp : Answer) (got_data : Bool) :
    (m.on_streamed path resp got_data).2 = true ↔ (∃ body, resp = .answered 200 body) ∧ got_data = true := by
  rcases MountHttp.on_streamed_cases m path resp got_data with
    ⟨body, answer, rfl, done⟩ | ⟨body, answer, done⟩ | ⟨bad, done⟩
  · rw [done]
    exact iff_of_true rfl ⟨⟨body, answer⟩, rfl⟩
  · rw [done, answer]
    simp
  · rw [done]
    refine iff_of_false Bool.false_ne_true ?_
    rintro ⟨⟨body, rfl⟩, rfl⟩
    rcases bad with dropped | ⟨status, body', answered, -, other⟩
    · cases dropped
    · cases answered
      exact other ⟨rfl, rfl⟩

theorem oneFile_mounts {fetched : Fetched} (mounts : List MountHttp) :
    OneFile { fetched with mounts } ↔ OneFile fetched := Iff.rfl

theorem oneFile_found {chunks : List Bytes} {served : Bytes} {mounts : List MountHttp} :
    OneFile ⟨chunks, true, served, mounts⟩ ↔ chunks.flatten = served :=
  ⟨fun one => one.1 rfl, fun same => ⟨fun _ => same, nofun⟩⟩

section Waiting

variable {source : Source} {rest : List Source} {download : Download}
  (waits : source.mount.fetch_streaming path = .waiting download)
include waits

theorem fetch_waiting : fetch_streaming path on_chunk [] (source :: rest) =
    let (mount, ok) := source.mount.on_streamed download.path (source.attempt.stream on_chunk).1
      (!(source.attempt.stream on_chunk).2.isEmpty)
    if ok then ⟨(source.attempt.stream on_chunk).2, true, source.body, mount :: rest.map Source.mount⟩
    else
      { fetch_streaming path on_chunk (source.attempt.stream on_chunk).2 rest with
        mounts := mount :: (fetch_streaming path on_chunk (source.attempt.stream on_chunk).2 rest).mounts } := by
  rw [fetch_streaming]
  simp only [waits, List.nil_append]

theorem orderly_waiting : Orderly path on_chunk (source :: rest) ↔
    (∃ i, source.attempt.incoming = some i ∧ i.head.status = 200 ∧ source.body ≠ [] ∧
        i.Whole on_chunk source.body) ∨
      ((∀ i, source.attempt.incoming = some i → i.Silent) ∧ Orderly path on_chunk rest) := by
  conv =>
    lhs
    unfold Orderly
  simp only [waits]

theorem fetch_success (on_chunk : ContentReceiver) (rest : List Source) {body : Bytes}
    (answer : (source.attempt.stream on_chunk).1 = .answered 200 body)
    (some_ : (source.attempt.stream on_chunk).2 ≠ []) :
    ∃ mounts, fetch_streaming path on_chunk [] (source :: rest) =
      ⟨(source.attempt.stream on_chunk).2, true, source.body, mounts⟩ := by
  have ok := (on_streamed_success source.mount download.path (source.attempt.stream on_chunk).1
    (!(source.attempt.stream on_chunk).2.isEmpty)).mpr ⟨⟨body, answer⟩, by simp [some_]⟩
  rw [fetch_waiting waits]
  exact ⟨_, if_pos ok⟩

theorem fetch_failure (on_chunk : ContentReceiver) (rest : List Source)
    (fails : (source.attempt.stream on_chunk).2 ≠ [] → ∀ body, (source.attempt.stream on_chunk).1 ≠ .answered 200 body) :
    ∃ mounts, fetch_streaming path on_chunk [] (source :: rest) =
      { fetch_streaming path on_chunk (source.attempt.stream on_chunk).2 rest with mounts } := by
  have failed : ¬(source.mount.on_streamed download.path (source.attempt.stream on_chunk).1
      (!(source.attempt.stream on_chunk).2.isEmpty)).2 = true := by
    rw [on_streamed_success]
    rintro ⟨⟨body, answer⟩, got⟩
    refine fails (fun nothing => ?_) body answer
    rw [nothing] at got
    cases got
  rw [fetch_waiting waits]
  exact ⟨_, if_neg failed⟩

end Waiting

theorem chunks_isPrefix (path : Bytes) (on_chunk : ContentReceiver) (sources : List Source) (chunks : List Bytes) :
    chunks <+: (fetch_streaming path on_chunk chunks sources).chunks := by
  induction sources generalizing chunks with
  | nil => exact List.prefix_refl chunks
  | cons source rest ih =>
    unfold fetch_streaming
    cases source.mount.fetch_streaming path with
    | failed => exact ih chunks
    | cached data => exact List.prefix_append chunks [data]
    | waiting download =>
      simp only
      split
      · exact List.prefix_append chunks _
      · exact (List.prefix_append chunks _).trans (ih _)

theorem oneFile_of_orderly (orderly : Orderly path on_chunk sources) :
    OneFile (fetch_streaming path on_chunk [] sources) := by
  induction sources with
  | nil => exact ⟨nofun, fun _ => rfl⟩
  | cons source rest ih =>
    cases asked : source.mount.fetch_streaming path with
    | failed =>
      unfold Orderly at orderly
      simp only [asked] at orderly
      unfold fetch_streaming
      simp only [asked]
      exact ih orderly
    | cached data =>
      unfold fetch_streaming
      simp only [asked]
      exact oneFile_found.mpr List.flatten_singleton
    | waiting download =>
      rcases (orderly_waiting asked).mp orderly with ⟨i, comes, ok, filled, whole⟩ | ⟨silent, orderly⟩
      · have streamed := stream_incoming comes on_chunk
        rw [ok] at streamed
        have same := whole.handed
        have some_ : i.handed on_chunk ≠ [] := by
          intro nothing
          rw [nothing] at same
          exact filled same.symm
        obtain ⟨mounts, fetched⟩ := fetch_success asked on_chunk rest (congrArg Prod.fst streamed)
          (by rw [streamed]; exact some_)
        rw [fetched, oneFile_found, streamed]
        exact same
      · have nothing : (source.attempt.stream on_chunk).2 = [] := by
          cases comes : source.attempt.incoming with
          | none => exact (stream_nothing comes on_chunk).1
          | some i =>
            rw [stream_incoming comes]
            exact (silent i comes).handed on_chunk
        obtain ⟨mounts, fetched⟩ := fetch_failure asked on_chunk rest
          (fun some_ => absurd nothing some_)
        rw [fetched, oneFile_mounts, nothing]
        exact ih orderly

/-- A mount answers with another status than 200, and something of a body comes. -/
def Talks (source : Source) : Prop :=
  ∃ i, source.attempt.incoming = some i ∧ i.head.status ≠ 200 ∧ ¬i.Silent

/-- Where no response is chunked and the lengths are right, one file comes to a consumer who refuses nothing
only in order, or because the page of a mount that failed happens to begin the file. -/
theorem orderly_of_oneFile (takes : ∀ given, on_chunk given = true)
    (plain : ∀ source ∈ sources, ∀ i, source.attempt.incoming = some i → i.Plain source.body)
    (one : OneFile (fetch_streaming path on_chunk [] sources)) :
    Orderly path on_chunk sources ∨
      ((fetch_streaming path on_chunk [] sources).found = true ∧ ∃ source ∈ sources, Talks source) := by
  induction sources with
  | nil => exact Or.inl trivial
  | cons source rest ih =>
    have later := ih fun s member => plain s (List.mem_cons_of_mem source member)
    have further : (∃ s ∈ rest, Talks s) → ∃ s ∈ source :: rest, Talks s :=
      fun ⟨s, member, talks⟩ => ⟨s, List.mem_cons_of_mem source member, talks⟩
    cases asked : source.mount.fetch_streaming path with
    | failed =>
      unfold fetch_streaming at one ⊢
      unfold Orderly
      simp only [asked] at one ⊢
      exact (later one).imp_right (And.imp_right further)
    | cached data =>
      unfold Orderly
      simp only [asked]
      exact Or.inl trivial
    | waiting download =>
      have silent_rest (nothing : (source.attempt.stream on_chunk).2 = [])
          (silent : ∀ i, source.attempt.incoming = some i → i.Silent) :
          Orderly path on_chunk (source :: rest) ∨
            ((fetch_streaming path on_chunk [] (source :: rest)).found = true ∧
              ∃ s ∈ source :: rest, Talks s) := by
        obtain ⟨mounts, fetched⟩ := fetch_failure asked on_chunk rest
          (fun some_ => absurd nothing some_)
        rw [fetched, oneFile_mounts, nothing] at one
        rw [fetched, nothing]
        exact (later one).imp (fun orderly => (orderly_waiting asked).mpr (Or.inr ⟨silent, orderly⟩))
          (And.imp_right further)
      cases comes : source.attempt.incoming with
      | none =>
        rw [comes] at silent_rest
        exact silent_rest (stream_nothing comes on_chunk).1 nofun
      | some i =>
        have streamed := stream_incoming comes on_chunk
        have plain_here := plain source List.mem_cons_self i comes
        rw [comes, streamed] at silent_rest
        by_cases nothing : i.handed on_chunk = []
        · exact silent_rest nothing fun j same => Option.some.inj same ▸ silent_of_handed plain_here nothing
        · by_cases ok : i.head.status = 200
          · obtain ⟨mounts, fetched⟩ := fetch_success asked on_chunk rest
              (by rw [streamed, ok]) (by rw [streamed]; exact nothing)
            rw [fetched, oneFile_found, streamed] at one
            refine Or.inl ((orderly_waiting asked).mpr (Or.inl ⟨i, comes, ok, fun empty => ?_, ?_⟩))
            · exact nothing (handed_filled plain_here (one.trans empty))
            · exact whole_of_handed plain_here (fun given _ _ => takes given) one
          · obtain ⟨mounts, fetched⟩ := fetch_failure asked on_chunk rest
              (fun _ body answer => by
                rw [streamed] at answer
                exact ok (Answer.answered.inj answer).1)
            rw [fetched, streamed] at one ⊢
            simp only at one ⊢
            cases found : (fetch_streaming path on_chunk (i.handed on_chunk) rest).found with
            | false =>
              have kept := chunks_isPrefix path on_chunk rest (i.handed on_chunk)
              rw [one.2 found] at kept
              exact absurd (List.prefix_nil.mp kept) nothing
            | true =>
              exact Or.inr ⟨rfl, source, List.mem_cons_self, i, comes, ok,
                fun silent => nothing (silent.handed on_chunk)⟩

end Mounts

/-- For all mounts, states of theirs and outcomes of their downloads: in order, the chunks are the file of the
mount that succeeds, or none if no mount does. Where no response is chunked, the lengths are right and the
consumer refuses nothing, that is the only way, except for a page that happens to begin the file. -/
theorem oneFile_orderly (path : Bytes) (on_chunk : ContentReceiver) (sources : List Source) :
    (Orderly path on_chunk sources → OneFile (fetch_streaming path on_chunk [] sources)) ∧
    ((∀ given, on_chunk given = true) →
      (∀ source ∈ sources, ∀ i, source.attempt.incoming = some i → i.Plain source.body) →
        OneFile (fetch_streaming path on_chunk [] sources) →
          Orderly path on_chunk sources ∨
            ((fetch_streaming path on_chunk [] sources).found = true ∧ ∃ source ∈ sources, Talks source)) :=
  ⟨oneFile_of_orderly, orderly_of_oneFile⟩

/-- A fresh connection on which these texts come, one for each read, and then no more. -/
def answering (texts : List String) : Attempt :=
  .h1 {} false ⟨false, []⟩ (some ⟨true, texts.map fun text => .data (bytes text)⟩)

def not_found_page : Source where
  mount := MountHttp.new (bytes "http://a") []
  attempt := answering ["HTTP/1.1 404 Not Found\r\nContent-Length: 4\r\n\r\nnope"]
  body := bytes "nope"

def music_file : Source where
  mount := MountHttp.new (bytes "http://b") []
  attempt := answering ["HTTP/1.1 200 OK\r\nContent-Length: 4\r\n\r\nOg", "gS"]
  body := bytes "OggS"

/-- The first server is not there, and the second one's answer has no body. -/
def missing_and_empty : List Source :=
  [⟨MountHttp.new (bytes "http://c") [], .h1 {} false ⟨false, []⟩ none, []⟩,
    ⟨MountHttp.new (bytes "http://d") [], answering ["HTTP/1.1 404 Not Found\r\nContent-Length: 0\r\n\r\n"], []⟩]

theorem file_behind_silence : OneFile (fetch_streaming (bytes "a.opus") (fun _ => true) []
    (missing_and_empty ++ [music_file])) := by
  refine (oneFile_orderly (bytes "a.opus") (fun _ => true) (missing_and_empty ++ [music_file])).1 ?_
  refine Or.inr ⟨nofun, Or.inr ⟨fun i comes => ?_, Or.inl ⟨_, rfl, by decide +kernel, by decide, ?_⟩⟩⟩
  · obtain rfl := Option.some.inj comes
    unfold Incoming.Silent
    rw [if_neg (by decide +kernel), if_neg (by decide +kernel)]
    decide +kernel
  · unfold Incoming.Whole
    rw [if_neg (by decide +kernel), if_pos (by decide +kernel)]
    exact ⟨by decide +kernel, by decide +kernel, by decide +kernel, fun _ _ _ => rfl⟩

/-- The page of the first server comes before the file of the second one. -/
theorem page_before_file :
    (fetch_streaming (bytes "a.opus") (fun _ => true) [] [not_found_page, music_file]).chunks =
      [bytes "nope", bytes "Og", bytes "gS"] ∧
    ¬OneFile (fetch_streaming (bytes "a.opus") (fun _ => true) [] [not_found_page, music_file]) := by
  have chunks : (fetch_streaming (bytes "a.opus") (fun _ => true) [] [not_found_page, music_file]).chunks =
      [bytes "nope", bytes "Og", bytes "gS"] := by decide +kernel
  have found : (fetch_streaming (bytes "a.opus") (fun _ => true) [] [not_found_page, music_file]).found =
      true := by decide +kernel
  have served : (fetch_streaming (bytes "a.opus") (fun _ => true) [] [not_found_page, music_file]).served =
      bytes "OggS" := by decide +kernel
  refine ⟨chunks, fun one => ?_⟩
  have whole := one.1 found
  rw [chunks, served] at whole
  revert whole
  decide +kernel

end AoSdl.MountManager
