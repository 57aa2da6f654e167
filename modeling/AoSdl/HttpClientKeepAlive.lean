import AoSdl.HttpClientHeaders
import AoSdl.Lib.Runs

/-! Keep-alive of the client: a connection is kept only with the response read to its end, where the
server sends what it may and the receiver stops nothing. The readers of chunks and for receivers
cannot tell a response that broke off. -/
namespace AoSdl.http.client
open Lib.Arrivals Lib.Runs

section Responses

variable {e : Exchange} {raw head extra body : Bytes} {code : Nat} {w w' : Wire} {keep : Bool}
variable {result : Result}

theorem receive_body_advances (e : Exchange) (pr : ParsedResponse) (w : Wire) :
    Advances w (receive_body e pr w).2 := by
  unfold receive_body
  dsimp only
  split
  · split
    · exact read_chunks_advances _ _ _ _
    · split
      · exact read_body_streaming_advances _ _ _ _
      · exact .refl w
  · split
    · exact read_chunks_advances _ _ _ _
    · split
      · exact read_body_advances _ _ _
      · exact .refl w

/-- A body that is to be read whole leaves nothing, if it counts as complete. -/
theorem receive_body_dry {pr : ParsedResponse} (flowing : Flowing w.line)
    (all : pr.body_start ++ letters w.line = body) (ends : IsBody e.method code pr.headers body)
    (clear : Bodiless e.method code ∨ reads pr.headers = announces pr.headers)
    (takes : ∀ receiver ∈ e.content_receiver, is_chunked pr.headers = false → Takes receiver body)
    (complete : (receive_body e pr w).1.2.2 = true) : letters (receive_body e pr w).2.line = [] := by
  have advances := receive_body_advances e pr w
  by_cases none : Bodiless e.method code
  · rw [IsBody, if_pos none] at ends
    exact advances.dry (List.append_eq_nil_iff.mp (all.trans ends)).2
  rw [IsBody, if_neg none, ← clear.resolve_left none, reads] at ends
  have bound : body.length < pr.body_start.length + (letters w.line).length + 1 := by
    rw [← all, List.length_append]
    omega
  unfold receive_body at complete ⊢
  by_cases chunked : is_chunked pr.headers = true
  · rw [if_pos chunked] at ends
    have dry : letters (read_chunked_body pr.body_start w).2.line = [] :=
      read_chunks_dry ends bound flowing all
    dsimp only
    split
    · rwa [if_pos chunked]
    · rwa [if_pos chunked]
  · rw [if_neg chunked] at ends
    rw [Bool.not_eq_true] at chunked
    have length : body.length = get_content_length pr.headers := ends
    have empty (none : ¬0 < get_content_length pr.headers) : letters w.line = [] := by
      have nothing : body.length = 0 := by omega
      exact (List.append_eq_nil_iff.mp (all.trans (List.length_eq_zero_iff.mp nothing))).2
    dsimp only at complete ⊢
    split
    · next receiver takes_pieces =>
      rw [if_neg (by rw [chunked]; decide)]
      split
      · rw [← length]
        exact read_body_streaming_dry flowing all (takes receiver takes_pieces chunked)
      · next none => exact empty none
    · next whole =>
      simp only [whole] at complete
      rw [if_neg (by rw [chunked]; decide)] at complete ⊢
      split
      · next some_ =>
        rw [if_pos some_] at complete
        exact (read_body_dry (by rw [all, length]) complete).2
      · next none => exact empty none

/-- Without a receiver a body that is too short does not count as complete. -/
theorem receive_body_short {pr : ParsedResponse} (unframed : is_chunked pr.headers = false)
    (kept : e.content_receiver = none) (all : pr.body_start ++ letters w.line = body)
    (missing : body.length < get_content_length pr.headers) :
    (receive_body e pr w).1.2.2 = false := by
  have positive : 0 < get_content_length pr.headers := by omega
  unfold receive_body
  simp only [kept, unframed, Bool.false_eq_true, if_false, if_pos positive]
  by_contra complete
  have same := (read_body_dry (by rw [all]; omega) (Bool.not_eq_false _ ▸ complete)).1
  rw [all] at same
  omega

/-- A connection that is kept has nothing of the response left on it. -/
theorem receive_response_kept (starts : Head raw code head extra)
    (settled : Settled e head code body) (flowing : Flowing w.line)
    (all : extra ++ letters w.line = body)
    (kept : receive_response keep e raw w = (result, some w')) :
    Advances w w' ∧ letters w'.line = [] ∧ IsBody e.method code (headers_of head) body := by
  unfold receive_response at kept
  simp only [starts.parsed] at kept
  split at kept
  · exact absurd kept (by simp)
  · next accepted =>
    split at kept
    · exact absurd kept (by simp)
    · next open_ =>
      obtain rfl : _ = w' := Option.some.inj (Prod.mk.inj kept).2
      rw [Bool.or_eq_true_iff, Bool.or_eq_true_iff, Bool.not_eq_true', Bool.not_eq_true', not_or,
        not_or, Bool.not_eq_false, Bool.not_eq_false] at open_
      obtain ⟨⟨_, complete⟩, stays⟩ := open_
      refine ⟨receive_body_advances _ _ _, ?_⟩
      cases settled with
      | closes named => exact absurd named stays
      | canceled refuses => exact absurd refuses accepted
      | short unframed none missing =>
        exact absurd complete (Bool.eq_false_iff.mp (receive_body_short unframed none all missing))
      | whole ends clear takes =>
        exact ⟨receive_body_dry flowing all ends clear takes complete, ends⟩

end Responses

section Runs

/-- What was taken off a kept connection since the last request is one whole response to it, and
no more is to come before the next. -/
def Clean (c : ClientImpl) : Prop :=
  ∀ conn ∈ c.socket_, IsMessage conn.method conn.wire.taken ∧ letters conn.wire.line = []

/-- Nothing breaks off, and what comes is what a server may send. -/
structure Supplies (e : Exchange) (line : Line) : Prop where
  flowing : Flowing line
  proper : Proper e line

/-- A client that keeps connections is supplied on the ones it uses. -/
def Sound (c : ClientImpl) : Event → Prop
  | .execute_request e idle kept fresh => c.keep_alive_ = true → c.is_stopping_ = false →
    (∀ conn ∈ c.socket_, idle = true → kept.sends = true →
      Supplies e (conn.wire.line ++ kept.reply)) ∧
    ∀ prospect ∈ fresh, prospect.sends = true → Supplies e prospect.reply
  | _ => True

variable {c : ClientImpl} {e : Exchange}

theorem Supplies.outcome {line : Line} (supplies : Supplies e line) :
    Outcome e (letters line) { line } (final_headers { line }).1 (final_headers { line }).2 :=
  proper_outcome supplies.proper (Nat.le_refl _) supplies.flowing rfl

/-- A client that keeps no connections closes each. -/
theorem receive_closes (off : c.keep_alive_ = false) (raw : Bytes) (w : Wire) :
    (c.receive e raw w).2.socket_ = none := by
  have closed : (receive_response false e raw w).2 = none := by
    unfold receive_response
    dsimp only
    split
    · rfl
    · rfl
  simp only [ClientImpl.receive, off, closed, Option.map_none]

theorem receive_clean {line : Line} {raw : Bytes} {w : Wire}
    (outcome : Outcome e (letters line) { line } raw w) (some_ : raw ≠ []) :
    Clean (c.receive e raw w).2 := by
  intro conn kept
  obtain ⟨code, head, extra, rest, starts, _, all, settled, whole⟩ := outcome.read.resolve_left some_
  obtain ⟨w', open_, rfl⟩ := Option.map_eq_some_iff.mp kept
  obtain ⟨advances, dry, ends⟩ :=
    receive_response_kept starts settled outcome.flowing all (Prod.ext rfl open_)
  have taken := (outcome.advances.trans advances).taken dry
  rw [List.nil_append] at taken
  exact ⟨taken ▸ whole ends, dry⟩

theorem ask_fresh_clean {fresh : Option Prospect}
    (supplied : c.keep_alive_ = true → ∀ prospect ∈ fresh, prospect.sends = true →
      Supplies e prospect.reply) : Clean (c.ask_fresh e fresh).2 := by
  have closed (error : Error) : Clean (c.drop_socket error).2 := fun _ kept => nomatch kept
  cases fresh with
  | none => exact closed _
  | some prospect =>
    unfold ClientImpl.ask_fresh
    dsimp only
    split
    · next sends =>
      split
      · exact closed _
      · next some_ =>
        cases keep : c.keep_alive_ with
        | false => exact fun conn kept => by simp [receive_closes keep] at kept
        | true =>
          have outcome := (supplied keep prospect rfl sends).outcome
          exact receive_clean outcome (by simpa using some_)
    · exact closed _

theorem step_clean {event : Event} (clean : Clean c) (sound : Sound c event) :
    Clean (step c event) := by
  cases event with
  | execute_request e idle kept fresh =>
    simp only [step, ClientImpl.execute_request]
    split
    · exact clean
    · next running =>
      rw [Bool.not_eq_true] at running
      have fresh_clean : Clean (c.ask_fresh e fresh).2 :=
        ask_fresh_clean fun keep => (sound keep running).2
      split
      · exact fresh_clean
      · next conn here =>
        split
        · next used =>
          rw [Bool.and_eq_true_iff] at used
          split
          · exact fresh_clean
          · next some_ =>
            cases keep : c.keep_alive_ with
            | false => exact fun conn kept => by simp [receive_closes keep] at kept
            | true =>
              have outcome := ((sound keep running).1 conn here used.1 used.2).outcome
              exact receive_clean outcome (by simpa using some_)
        · exact fresh_clean
  | set_keep_alive on => exact clean
  | stop => exact fun conn kept => nomatch kept

/-- A connection is only ever kept with the response to the last request taken off it whole, and
nothing else, if the client is supplied with proper replies. -/
theorem kept_clean (keep_alive_ : Bool) (events : List Event)
    (sound : Throughout step Sound { keep_alive_ } events) :
    Always step Clean { keep_alive_ } events :=
  always_of_throughout (fun _ _ => step_clean) (fun _ kept => nomatch kept) sound

/-- A request, and the pieces that come for it. -/
def get (e : Exchange) (pieces : List String) : Event :=
  let reply : Prospect := ⟨true, (pieces.map bytes).map .data⟩
  .execute_request e true reply (some reply)

def plain : Exchange := { method := bytes "GET" }

def streamed : Exchange := { method := bytes "GET", content_receiver := some fun _ => true }

def chunked_reply : List String :=
  ["HTTP/1.1 200 OK\r\nTransfer-Encoding: chunked\r\n\r\n5;a=b\r", "\nhello\r\n0\r\nT: x\r\n\r\n"]

def sized_reply : List String := ["HTTP/1.1 200 OK\r\nContent-Length: 2\r\n\r\n", "o", "k"]

theorem chunked_reply_supplies : Supplies plain ((chunked_reply.map bytes).map .data) where
  flowing := flowing_data _ (by decide)
  proper := by
    refine .final ⟨200, bytes "HTTP/1.1 200 OK\r\nTransfer-Encoding: chunked",
      bytes "5;a=b\r\nhello\r\n0\r\nT: x\r\n\r\n",
      ⟨by decide, by decide, by decide⟩, by decide,
      .whole ?_ (.inr (by decide)) fun _ receiver => nomatch receiver⟩
    rw [IsBody, if_neg (by decide)]
    have framing : announces (headers_of (bytes "HTTP/1.1 200 OK\r\nTransfer-Encoding: chunked")) =
      .chunked := by decide
    have text : bytes "5;a=b\r\nhello\r\n0\r\nT: x\r\n\r\n" = bytes "5;a=b" ++ 13 :: 10 ::
        (bytes "hello" ++ 13 :: 10 :: (bytes "0" ++ 13 :: 10 ::
          (Lib.Framing.lines 13 10 [bytes "T: x"] ++ [13, 10]))) := by decide
    rw [framing, text]
    refine .chunk ⟨by decide, by decide, by decide, by decide,
      by decide⟩ (by decide) (.last ⟨by decide, by decide,
      by decide, by decide, by decide⟩ (by decide))

theorem sized_reply_supplies : Supplies streamed ((sized_reply.map bytes).map .data) where
  flowing := flowing_data _ (by decide)
  proper := by
    refine .final ⟨200, bytes "HTTP/1.1 200 OK\r\nContent-Length: 2", bytes "ok",
      ⟨by decide, by decide, by decide⟩, by decide,
      .whole ?_ (.inr (by decide)) fun receiver some_ _ _ _ _ => ?_⟩
    · rw [IsBody, if_neg (by decide)]
      have framing : announces (headers_of (bytes "HTTP/1.1 200 OK\r\nContent-Length: 2")) =
        .length 2 := by decide
      rw [framing]
      decide
    · obtain rfl := Option.some.inj some_
      rfl

/-- Two responses over one connection, chunked and of known length. -/
theorem kept_clean_two : Always step Clean { keep_alive_ := true }
    [get plain chunked_reply, get streamed sized_reply] := by
  refine kept_clean true _ ⟨fun _ _ => ⟨?_, ?_⟩, fun _ _ => ⟨?_, ?_⟩, trivial⟩
  · intro conn kept
    exact absurd kept (by simp)
  · intro prospect new _
    exact Option.some.inj new ▸ chunked_reply_supplies
  · intro conn kept _ _
    have read : (step { keep_alive_ := true } (get plain chunked_reply)).socket_.map
        (·.wire.line) = some [] := by decide +kernel
    obtain ⟨first, here, dry⟩ := Option.map_eq_some_iff.mp read
    obtain rfl : first = conn := Option.some.inj (here.symm.trans kept)
    rw [dry]
    exact sized_reply_supplies
  · intro prospect new _
    exact Option.some.inj new ▸ sized_reply_supplies

theorem ChunkedBody.ends {text : Bytes} (chunked : ChunkedBody text) : [13, 10] <:+ text := by
  induction chunked with
  | @chunk line data rest size some_ more ih =>
    exact ih.trans ⟨line ++ 13 :: 10 :: (data ++ [13, 10]), by simp⟩
  | @last line fields size each =>
    exact ⟨line ++ 13 :: 10 :: Lib.Framing.lines 13 10 fields, by simp⟩

theorem Head.unique {text head rest : Bytes} {code n : Nat} (starts : Head text code head rest)
    (found : find_header_end text = some n) : head = text.take n ∧ rest = text.drop (n + 4) := by
  obtain rfl : n = head.length := Option.some.inj (found.symm.trans starts.ends)
  rw [starts.shape]
  refine ⟨List.take_left.symm, ?_⟩
  rw [← List.append_assoc]
  exact (List.drop_left' (by simp [CRLF])).symm

/-- A response that names chunks and breaks off within one. -/
def broken_reply : List String :=
  ["HTTP/1.1 200 OK\r\nTransfer-Encoding: chunked\r\n\r\n2b\r\nhello"]

/-- The rest of it, behind the next request: what is left of the chunk reads like a response. -/
def late_chunk : List String :=
  ["HTTP/1.1 201 OK\r\nContent-Length: 0\r\n\r\n\r\n0\r\n\r\n"]

theorem broken_reply_incomplete : ¬IsMessage (bytes "GET") (broken_reply.map bytes).flatten := by
  have found : find_header_end (broken_reply.map bytes).flatten = some 43 := by decide
  have status : status_of ((broken_reply.map bytes).flatten.take 43) = some 200 := by decide
  intro message
  cases message with
  | @interim _ head rest code starts interim more =>
    obtain ⟨rfl, rfl⟩ := starts.unique found
    obtain rfl : code = 200 := Option.some.inj (starts.status.symm.trans status)
    exact absurd interim (by decide)
  | @final _ head rest code starts final body =>
    obtain ⟨rfl, rfl⟩ := starts.unique found
    obtain rfl : code = 200 := Option.some.inj (starts.status.symm.trans status)
    have framing : announces (headers_of ((broken_reply.map bytes).flatten.take 43)) = .chunked := by
      decide
    rw [IsBody, if_neg (by decide), framing] at body
    exact absurd (ChunkedBody.ends body) (by decide)

/-- The connection is kept with a body that broke off, and the next response is read off the body. -/
theorem body_read_as_response :
    ¬Always step Clean { keep_alive_ := true } [get plain broken_reply] ∧
      ((step { keep_alive_ := true } (get plain broken_reply)).execute_request plain true
        ⟨true, (late_chunk.map bytes).map .data⟩ none).1.res.map (·.status) = some 201 := by
  refine ⟨fun clean => ?_, by decide +kernel⟩
  have kept : (step { keep_alive_ := true } (get plain broken_reply)).socket_ =
      some ⟨bytes "GET", ⟨(broken_reply.map bytes).flatten, []⟩⟩ := by decide +kernel
  exact broken_reply_incomplete (clean.2 _ kept).1

end Runs

end AoSdl.http.client
