import Qwen38.Lib.Chunked
import Qwen38.Http.Request
import Qwen38.Text.StreamText

/-!
# Writing a response

`write_response` and the `send_all` under it. What the calls of `send` do is a list of answers:
a call that finds the list empty fails. A stream is written in chunks by the sink it is given;
since a sink of `Qwen38.Sse` answers from what it has been sent, the writer's state is computed
from the events so far.

The bytes that have been sent are those of the header, of a sequence of chunks and of the last
chunk, up to where a call failed, and no call comes after one that failed
(`Qwen38.HttpServer.Framed`).
-/

namespace Qwen38

namespace HttpServer

open Chunked (Decoded Ending)

/-! ### Sending -/

/-- What a call of `send` does: it sends so many bytes, or what fits; it is interrupted; it
fails. -/
inductive Sent
  | sent (count : Nat)
  | eintr
  | failed
deriving DecidableEq

/-- Does `send_all` go on after this call? -/
def Sent.goes_on : Sent → Bool
  | .sent count => decide (0 < count)
  | .eintr => true
  | .failed => false

/-- A client's socket: what has been sent to it, and the answers of the calls to come. -/
structure Socket where
  wire : Bytes
  answers : List Sent
deriving DecidableEq

/-- `std::numeric_limits<ssize_t>::max()`. -/
def ssize_max : Nat := 2 ^ 63 - 1

/-- The loop of `send_all`, with the data from `offset` on. -/
def send_loop : List Sent → Bytes → Bytes → Bool × Socket
  | answers, wire, data =>
    if data = [] then (true, ⟨wire, answers⟩)
    else
      match answers with
      | [] => (false, ⟨wire, []⟩)
      | .eintr :: answers => send_loop answers wire data
      | .failed :: answers => (false, ⟨wire, answers⟩)
      | .sent count :: answers =>
        if count = 0 then (false, ⟨wire, answers⟩)
        else
          let sent := min count (min data.length ssize_max)
          send_loop answers (wire ++ data.take sent) (data.drop sent)

/-- `send_all`. -/
def send_all (data : Bytes) (socket : Socket) : Bool × Socket :=
  send_loop socket.answers socket.wire data

/-- `&&` of one more `send_all`. -/
def and_send (sent : Bool × Socket) (data : Bytes) : Bool × Socket :=
  if sent.1 then send_all data sent.2 else sent

/-! ### The response -/

/-- `HttpResponse`. -/
structure HttpResponse where
  status : Nat := 200
  content_type : Bytes := bytes "application/json"
  body : Bytes
  body_stream : Option (Sse.Sink → Sse.State) := none

/-- `reason_phrase`. -/
def reason_phrase (status : Nat) : Bytes :=
  match status with
  | 200 => bytes "OK"
  | 400 => bytes "Bad Request"
  | 404 => bytes "Not Found"
  | 413 => bytes "Payload Too Large"
  | 431 => bytes "Request Header Fields Too Large"
  | 500 => bytes "Internal Server Error"
  | 501 => bytes "Not Implemented"
  | 503 => bytes "Service Unavailable"
  | _ => bytes "Error"

/-- What the headers of every response start with. -/
def response_head (response : HttpResponse) : Bytes :=
  bytes "HTTP/1.1 " ++ Json.digits_of response.status ++ bytes " " ++
    reason_phrase response.status ++ line_end ++ bytes "Content-Type: " ++ response.content_type

/-- The headers of a response with a body. -/
def body_header (response : HttpResponse) : Bytes :=
  response_head response ++ line_end ++ bytes "Content-Length: " ++
    Json.digits_of response.body.length ++ line_end ++ bytes "Connection: close" ++ line_end ++
    bytes "X-Content-Type-Options: nosniff" ++ headers_end

/-- The headers of a stream. -/
def stream_header (response : HttpResponse) : Bytes :=
  response_head response ++ line_end ++ bytes "Transfer-Encoding: chunked" ++ line_end ++
    bytes "Cache-Control: no-cache" ++ line_end ++ bytes "X-Accel-Buffering: no" ++ line_end ++
    bytes "Connection: close" ++ line_end ++ bytes "X-Content-Type-Options: nosniff" ++ headers_end

/-- What the sink writes for a fragment, and whether the client is still connected. -/
def write_fragment (fragment : Bytes) (writer : Bool × Socket) : Bool × Socket :=
  if writer.1 then
    and_send (and_send (send_all (Chunked.hex fragment.length ++ line_end) writer.2) fragment)
      line_end
  else writer

/-- The writer after some events. -/
def written (text : Sse.Event → Bytes) (socket : Socket) (events : List Sse.Event) : Bool × Socket :=
  events.foldl (fun writer event => write_fragment (text event) writer) (true, socket)

/-- The `sink` of `write_response`. -/
def chunk_sink (text : Sse.Event → Bytes) (socket : Socket) : Sse.Sink := fun events event =>
  (write_fragment (text event) (written text socket events)).1

/-- `write_response`, with whether everything was sent. -/
def write_response (text : Sse.Event → Bytes) (response : HttpResponse) (socket : Socket) :
    Bool × Socket :=
  match response.body_stream with
  | none => send_all (body_header response ++ response.body) socket
  | some body_stream =>
    let head := send_all (stream_header response) socket
    if head.1 then
      let writer := written text head.2 (body_stream (chunk_sink text head.2)).events
      and_send writer (bytes "0" ++ headers_end)
    else head

/-! ### What a call of `send_all` has done -/

/-- The calls of `send` that were made: all of them went on, except for a last one when not
everything was sent. -/
def Calls (answers : List Sent) (sent : Bool × Socket) : Prop :=
  ∃ before failing, answers = before ++ failing ++ sent.2.answers ∧
    (∀ a ∈ before, a.goes_on = true) ∧
    if sent.1 then failing = []
    else (∃ a, failing = [a] ∧ a.goes_on = false) ∨ failing = [] ∧ sent.2.answers = []

theorem Calls.none (socket : Socket) : Calls socket.answers (true, socket) :=
  ⟨[], [], rfl, List.forall_mem_nil _, rfl⟩

theorem Calls.cons {a : Sent} (ha : a.goes_on = true) {answers : List Sent} {sent : Bool × Socket}
    (h : Calls answers sent) : Calls (a :: answers) sent := by
  obtain ⟨before, failing, rfl, hbefore, hfailing⟩ := h
  exact ⟨a :: before, failing, rfl, List.forall_mem_cons.mpr ⟨ha, hbefore⟩, hfailing⟩

theorem Calls.failed {a : Sent} (ha : a.goes_on = false) (wire : Bytes) (answers : List Sent) :
    Calls (a :: answers) (false, ⟨wire, answers⟩) :=
  ⟨[], [a], rfl, List.forall_mem_nil _, Or.inl ⟨a, rfl, ha⟩⟩

/-- Calls after calls that all went on. -/
theorem Calls.trans {answers : List Sent} {socket : Socket} {sent : Bool × Socket}
    (h : Calls answers (true, socket)) (h' : Calls socket.answers sent) : Calls answers sent := by
  obtain ⟨before, failing, heq, hbefore, hnone⟩ := h
  obtain ⟨before', failing', heq', hbefore', hfailing'⟩ := h'
  obtain rfl : failing = [] := hnone
  refine ⟨before ++ before', failing', ?_, ?_, hfailing'⟩
  · rw [heq, heq', List.append_nil, List.append_assoc, List.append_assoc, List.append_assoc]
  · exact List.forall_mem_append.mpr ⟨hbefore, hbefore'⟩

/-- What sending some data has done. -/
structure Progress (data : Bytes) (socket : Socket) (sent : Bool × Socket) : Prop where
  calls : Calls socket.answers sent
  all : sent.1 = true → sent.2.wire = socket.wire ++ data
  part : sent.1 = false →
    ∃ part rest, data = part ++ rest ∧ rest ≠ [] ∧ sent.2.wire = socket.wire ++ part

theorem send_loop_progress (answers : List Sent) (wire data : Bytes) :
    Progress data ⟨wire, answers⟩ (send_loop answers wire data) := by
  induction answers generalizing wire data with
  | nil =>
    unfold send_loop
    split
    next hdata =>
      refine ⟨.none _, fun _ => ?_, fun h => absurd h.symm Bool.false_ne_true⟩
      rw [hdata, List.append_nil]
    next hdata =>
      refine ⟨⟨[], [], rfl, List.forall_mem_nil _, Or.inr ⟨rfl, rfl⟩⟩,
        fun h => absurd h Bool.false_ne_true, fun _ => ⟨[], data, rfl, hdata, ?_⟩⟩
      rw [List.append_nil]
  | cons a answers ih =>
    -- a call that fails ends the loop with nothing more on the wire
    have hstop : ∀ {a : Sent}, a.goes_on = false → data ≠ [] →
        Progress data ⟨wire, a :: answers⟩ (false, ⟨wire, answers⟩) := by
      intro a ha hdata
      refine ⟨.failed ha wire answers, fun h => absurd h Bool.false_ne_true,
        fun _ => ⟨[], data, rfl, hdata, ?_⟩⟩
      rw [List.append_nil]
    unfold send_loop
    split
    next hdata =>
      refine ⟨.none _, fun _ => ?_, fun h => absurd h.symm Bool.false_ne_true⟩
      rw [hdata, List.append_nil]
    next hdata =>
      cases a with
      | eintr => exact ⟨(ih wire data).calls.cons rfl, (ih wire data).all, (ih wire data).part⟩
      | failed => exact hstop rfl hdata
      | sent count =>
        dsimp only
        split
        next hcount =>
          have hstops : (Sent.sent count).goes_on = false :=
            decide_eq_false (Nat.not_lt.mpr hcount.le)
          exact hstop hstops hdata
        next hcount =>
          -- what has been sent and what the rest of the loop sends make up the part
          have hrest := ih (wire ++ data.take (min count (min data.length ssize_max)))
            (data.drop (min count (min data.length ssize_max)))
          have hgoes : (Sent.sent count).goes_on = true :=
            decide_eq_true (Nat.pos_of_ne_zero hcount)
          refine ⟨hrest.calls.cons hgoes, fun h => ?_, fun h => ?_⟩
          · rw [hrest.all h, List.append_assoc, List.take_append_drop]
          · obtain ⟨part, rest, hdrop, hne, hwire⟩ := hrest.part h
            refine ⟨data.take (min count (min data.length ssize_max)) ++ part, rest, ?_, hne, ?_⟩
            · rw [List.append_assoc, ← hdrop, List.take_append_drop]
            · rw [hwire, List.append_assoc]

theorem send_all_progress (data : Bytes) (socket : Socket) :
    Progress data socket (send_all data socket) :=
  send_loop_progress socket.answers socket.wire data

/-- More data behind data. -/
theorem Progress.and_send {data : Bytes} {socket : Socket} {sent : Bool × Socket}
    (h : Progress data socket sent) (behind : Bytes) :
    Progress (data ++ behind) socket (and_send sent behind) := by
  obtain ⟨done, socket'⟩ := sent
  rw [HttpServer.and_send]
  cases done with
  | true =>
    have hbehind := send_all_progress behind socket'
    have hwire : socket'.wire = socket.wire ++ data := h.all rfl
    rw [if_pos rfl]
    refine ⟨h.calls.trans hbehind.calls, fun hall => ?_, fun hpart => ?_⟩
    · rw [hbehind.all hall, hwire, List.append_assoc]
    · obtain ⟨part, rest, heq, hne, hwire'⟩ := hbehind.part hpart
      refine ⟨data ++ part, rest, ?_, hne, ?_⟩
      · rw [heq, List.append_assoc]
      · rw [hwire', hwire, List.append_assoc]
  | false =>
    rw [if_neg Bool.false_ne_true]
    obtain ⟨part, rest, heq, hne, hwire⟩ := h.part rfl
    refine ⟨h.calls, fun h => absurd h Bool.false_ne_true, fun _ => ⟨part, rest ++ behind, ?_, ?_, ?_⟩⟩
    · rw [heq, List.append_assoc]
    · exact fun hnil => hne (List.append_eq_nil_iff.mp hnil).1
    · exact hwire

theorem write_fragment_progress (fragment : Bytes) (socket : Socket) :
    Progress (Chunked.chunk fragment) socket (write_fragment fragment (true, socket)) :=
  ((send_all_progress _ socket).and_send fragment).and_send line_end

/-! ### What the sink has done -/

/-- What writing some fragments has done: the chunks that are there, and the part of the last one
where a call failed. -/
structure Framed (fragments : List Bytes) (socket : Socket) (writer : Bool × Socket) : Prop where
  calls : Calls socket.answers writer
  whole : writer.1 = true → writer.2.wire = socket.wire ++ Chunked.encode fragments
  cut : writer.1 = false → ∃ whole last part, fragments = whole ++ [last] ∧
    part <+: Chunked.chunk last ∧ part ≠ Chunked.chunk last ∧
    writer.2.wire = socket.wire ++ (Chunked.encode whole ++ part)

theorem Framed.none (socket : Socket) : Framed [] socket (true, socket) :=
  ⟨.none socket, fun _ => (List.append_nil _).symm, fun h => absurd h.symm Bool.false_ne_true⟩

/-- One more fragment for a client that is connected. -/
theorem Framed.write {fragments : List Bytes} {socket socket' : Socket}
    (h : Framed fragments socket (true, socket')) (fragment : Bytes) :
    Framed (fragments ++ [fragment]) socket (write_fragment fragment (true, socket')) := by
  have hchunk := write_fragment_progress fragment socket'
  have hwire : socket'.wire = socket.wire ++ Chunked.encode fragments := h.whole rfl
  refine ⟨h.calls.trans hchunk.calls, fun hall => ?_, fun hpart => ?_⟩
  · rw [hchunk.all hall, hwire, Chunked.encode, Chunked.encode, List.flatMap_append,
      List.flatMap_singleton, List.append_assoc]
  · obtain ⟨part, rest, heq, hne, hwire'⟩ := hchunk.part hpart
    refine ⟨fragments, fragment, part, rfl, ⟨rest, heq.symm⟩, ?_, ?_⟩
    · intro hpart
      rw [← hpart] at heq
      exact hne (List.self_eq_append_right.mp heq)
    · rw [hwire', hwire, List.append_assoc]

/-- The writer, for the events that go out one after the other to a client that is connected. -/
theorem framed_of_sends {text : Sse.Event → Bytes} {socket : Socket}
    {client : Bool × List Sse.Event}
    (h : Relation.ReflTransGen (Sse.SendsOne (chunk_sink text socket)) (true, []) client) :
    client.1 = (written text socket client.2).1 ∧
      Framed (client.2.map text) socket (written text socket client.2) := by
  induction h with
  | refl => exact ⟨rfl, .none socket⟩
  | @tail client client' _ hone ih =>
    obtain ⟨hconnected, event, rfl⟩ := hone
    obtain ⟨hsame, hframed⟩ := ih
    have hstep : written text socket (client.2 ++ [event]) =
        write_fragment (text event) (written text socket client.2) := by
      rw [written, List.foldl_append, ← written]
      rfl
    refine ⟨congrArg Prod.fst hstep.symm, ?_⟩
    rw [hstep, List.map_append, List.map_singleton]
    rw [hconnected] at hsame
    generalize written text socket client.2 = writer at hsame hframed
    obtain ⟨_, socket'⟩ := writer
    obtain rfl := hsame
    exact hframed.write (text event)

/-! ### The framing -/

/-- What a client gets of a stream whose fragments have been written into a body. -/
structure Framing (fragments : List Bytes) (sent : Bool) (body : Bytes) : Prop where
  /-- Everything, and nothing behind the last chunk. -/
  complete : sent = true → Chunked.decode body = ⟨fragments.flatten, .complete []⟩
  /-- The fragments before the write that failed, and what was written of the one in it. -/
  truncated : sent = false → ∃ whole part,
    Chunked.decode body = ⟨whole.flatten ++ part, .truncated⟩ ∧
    (whole = fragments ∧ part = [] ∨ ∃ last, fragments = whole ++ [last] ∧ part <+: last)

/-- The calls for the fragments and for something behind them. -/
theorem Framed.calls_and_send {fragments : List Bytes} {socket : Socket} {writer : Bool × Socket}
    (h : Framed fragments socket writer) (behind : Bytes) :
    Calls socket.answers (HttpServer.and_send writer behind) := by
  obtain ⟨connected, socket'⟩ := writer
  rw [HttpServer.and_send]
  cases connected with
  | true =>
    rw [if_pos rfl]
    exact h.calls.trans (send_all_progress behind socket').calls
  | false =>
    rw [if_neg Bool.false_ne_true]
    exact h.calls

/-- The last chunk behind the fragments. -/
theorem Framed.framing {fragments : List Bytes} {socket : Socket} {writer : Bool × Socket}
    (h : Framed fragments socket writer) (hfragments : ∀ fragment ∈ fragments, fragment ≠ []) :
    ∃ body, (and_send writer (bytes "0" ++ headers_end)).2.wire = socket.wire ++ body ∧
      Framing fragments (and_send writer (bytes "0" ++ headers_end)).1 body := by
  obtain ⟨connected, socket'⟩ := writer
  rw [and_send]
  cases connected with
  | false =>
    -- the stream was cut within a chunk
    obtain ⟨whole, last, part, rfl, hpart, hne, hwire⟩ := h.cut rfl
    rw [if_neg Bool.false_ne_true]
    refine ⟨_, hwire, fun hsent => absurd hsent Bool.false_ne_true, fun _ => ?_⟩
    obtain ⟨data, hdata, hdecode⟩ := Chunked.decode_of_prefix hpart hne
    refine ⟨whole, data, ?_, Or.inr ⟨last, rfl, hdata⟩⟩
    rw [Chunked.decode_encode fun fragment hmem => hfragments fragment (List.mem_append_left _ hmem),
      hdecode]
    rfl
  | true =>
    -- all chunks are out, and the last one is sent or cut
    have hlast := send_all_progress Chunked.last socket'
    have hwire : socket'.wire = socket.wire ++ Chunked.encode fragments := h.whole rfl
    rw [if_pos rfl, show bytes "0" ++ headers_end = Chunked.last from by decide]
    rcases hsent : (send_all Chunked.last socket').1 with _ | _
    · obtain ⟨part, rest, heq, hne, hpart⟩ := hlast.part hsent
      rw [hwire, List.append_assoc] at hpart
      refine ⟨_, hpart, fun hsent => absurd hsent Bool.false_ne_true, fun _ => ?_⟩
      refine ⟨fragments, [], ?_, Or.inl ⟨rfl, rfl⟩⟩
      rw [Chunked.decode_encode hfragments, Chunked.decode_of_prefix_last ⟨rest, heq.symm⟩]
      · rfl
      · intro hpart
        rw [← hpart] at heq
        exact hne (List.self_eq_append_right.mp heq)
    · have hall := hlast.all hsent
      rw [hwire, List.append_assoc] at hall
      refine ⟨_, hall, fun _ => ?_, fun hsent => absurd hsent.symm Bool.false_ne_true⟩
      have hdecode := Chunked.decode_last []
      rw [List.append_nil] at hdecode
      rw [Chunked.decode_encode hfragments, hdecode, Chunked.Decoded.prepend, List.append_nil]

/-- The response to a streaming request: the engine hands over these deltas, and returns or
throws. -/
def stream_response (options : Sse.Options) (numbers : NumberText) (deltas : List Bytes)
    (result : Except Bytes FinishReason) : HttpResponse where
  status := 200
  content_type := bytes "text/event-stream; charset=utf-8"
  body := []
  body_stream := some fun sink => Sse.body_stream sink options numbers deltas result

/-- **The framing of a stream**, for every request, every engine and every client. The calls of
`send` end with one that failed, if one did. When the headers are not sent, nothing follows them.
Otherwise the body decodes to the fragments of the stream and ends with its last chunk, or to what
could be written of them. -/
theorem stream_framing {numbers : NumberText} (printed : Sse.Printed numbers)
    (options : Sse.Options) (deltas : List Bytes) (result : Except Bytes FinishReason)
    (answers : List Sent) :
    let response := stream_response options numbers deltas result
    let head := send_all (stream_header response) ⟨[], answers⟩
    let sent := write_response (Sse.event_text printed) response ⟨[], answers⟩
    Calls answers sent ∧
    (head.1 = false → sent.2.wire <+: stream_header response) ∧
    (head.1 = true → ∃ body, sent.2.wire = stream_header response ++ body ∧
      Framing
        ((Sse.body_stream (chunk_sink (Sse.event_text printed) head.2) options numbers deltas
          result).events.map (Sse.event_text printed))
        sent.1 body) := by
  intro response head sent
  have hhead : Progress (stream_header response) ⟨[], answers⟩ head := send_all_progress _ _
  have hsent : sent = if head.1 then
      and_send (written (Sse.event_text printed) head.2
        (Sse.body_stream (chunk_sink (Sse.event_text printed) head.2) options numbers deltas
          result).events) (bytes "0" ++ headers_end)
    else head := rfl
  rw [hsent]
  clear_value head
  obtain ⟨connected, socket⟩ := head
  cases connected with
  | false =>
    rw [if_neg Bool.false_ne_true]
    refine ⟨hhead.calls, fun _ => ?_, fun hsent => absurd hsent Bool.false_ne_true⟩
    -- the headers were cut, and the stream is not begun
    obtain ⟨part, rest, heq, -, hwire⟩ := hhead.part rfl
    rw [hwire, heq]
    exact List.prefix_append part rest
  | true =>
    rw [if_pos rfl]
    have hsends := Sse.body_stream_sends (chunk_sink (Sse.event_text printed) socket) options
      numbers deltas result
    obtain ⟨-, hframed⟩ := framed_of_sends hsends
    have hwire : socket.wire = stream_header response := (hhead.all rfl).trans (List.nil_append _)
    refine ⟨?_, fun hsent => absurd hsent.symm Bool.false_ne_true, fun _ => ?_⟩
    · exact hhead.calls.trans (hframed.calls_and_send _)
    · rw [← hwire]
      exact hframed.framing (List.forall_mem_map.mpr fun event _ => Sse.event_text_ne_nil printed event)

end HttpServer

end Qwen38
