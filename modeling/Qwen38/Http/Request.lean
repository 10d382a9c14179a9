import Qwen38.Http.Server
import Qwen38.Text.Json

/-!
# Reading a request

`handle_client` up to the request it hands to the API, or the error it answers with. What
`recv` returns, call after call, is a list of pieces: a call that finds the list empty, or
an empty piece, is one that returned nothing, at the end of the stream or on an error.

The headers are an association list with the first entry of a name, as `emplace` keeps it.
-/

namespace Qwen38

namespace HttpServer

/-- `HttpRequest`. -/
structure HttpRequest where
  method : Bytes
  target : Bytes
  headers : List (Bytes × Bytes)
  body : Bytes
deriving DecidableEq

/-- How `handle_client` leaves the stream. -/
inductive Outcome
  /-- It returns without an answer. -/
  | closed
  /-- It answers with `parse_error`. -/
  | refused (status : Nat) (message : String)
  /-- It hands the request to the API. -/
  | handled (request : HttpRequest)
deriving DecidableEq

/-- The buffer of `recv`. -/
def buffer_size : Nat := 8192

/-- The end of a line. -/
def line_end : Bytes := [13, 10]

/-- The end of the headers. -/
def headers_end : Bytes := [13, 10, 13, 10]

/-- `lowercase`, in the C locale. -/
def lowercase (value : Bytes) : Bytes :=
  value.map fun b => if 65 ≤ b ∧ b ≤ 90 then b + 32 else b

/-- `trim` of the server, which knows blanks and tabs only. -/
def trim (value : Bytes) : Bytes :=
  let is_blank (b : UInt8) : Bool := b == 32 || b == 9
  (value.dropWhile is_blank).rdropWhile is_blank

/-- `std::istringstream::operator>>` into a string: a word, and the stream behind it. -/
def read_word (line : Bytes) : Option (Bytes × Bytes) :=
  match (skip_space line).takeWhile fun b => !isspace b with
  | [] => none
  | word => some (word, (skip_space line).dropWhile fun b => !isspace b)

/-- `std::from_chars` into `std::size_t`, of a whole text. -/
def size_from_chars (text : Bytes) : Option Nat :=
  if text ≠ [] ∧ text.all Json.is_digit ∧ Json.digits_value text < 2 ^ 64 then
    some (Json.digits_value text)
  else none

/-- The request line: the method, the target and the version. -/
def parse_request_line (line : Bytes) : Option (Bytes × Bytes) := do
  let (method, line) ← read_word line
  let (target, line) ← read_word line
  let (version, _) ← read_word line
  if version = ascii "HTTP/1.1".toList then some (method, target) else none

/-- `emplace`: an entry that is there stays. -/
def emplace (headers : List (Bytes × Bytes)) (name value : Bytes) : List (Bytes × Bytes) :=
  if (headers.lookup name).isSome then headers else headers ++ [(name, value)]

/-- The loop over the header lines, from the cursor on; `none` is the line without a colon.
Every line but the last has its two bytes at the end, so the length is fuel enough. -/
def parse_header_lines : Nat → List (Bytes × Bytes) → Bytes → Option (List (Bytes × Bytes))
  | 0, headers, _ => some headers
  | fuel + 1, headers, rest =>
    if rest = [] then some headers
    else
      let stop := (Search.find line_end rest).getD rest.length
      let line := rest.take stop
      match Search.find [58] line with
      | none => none
      | some colon =>
        parse_header_lines fuel
          (emplace headers (lowercase (trim (line.take colon))) (trim (line.drop (colon + 1))))
          (rest.drop (stop + 2))

/-- The request without its body and the length of the body, out of the headers. -/
def parse_headers (config : ServerConfig) (headers : Bytes) : Except Outcome (HttpRequest × Nat) :=
  match Search.find line_end headers with
  | none => .error (.refused 400 "Malformed request line")
  | some first_line_end =>
    match parse_request_line (headers.take first_line_end) with
    | none => .error (.refused 400 "Expected an HTTP/1.1 request")
    | some (method, target) =>
      match parse_header_lines headers.length [] (headers.drop (first_line_end + 2)) with
      | none => .error (.refused 400 "Malformed request header")
      | some fields =>
        match (fields.lookup (ascii "content-length".toList)).elim (some 0) size_from_chars with
        | none => .error (.refused 400 "Invalid Content-Length")
        | some content_length =>
          if content_length > config.max_body_bytes then
            .error (.refused 413 "Request body is too large")
          else .ok (⟨method, target, fields, []⟩, content_length)

/-- The loop that reads up to the end of the headers: where they end, what has been read, and
what `recv` is still to return. -/
def read_headers (config : ServerConfig) (wire : Bytes) (pieces : List Bytes) :
    Except Outcome (Nat × Bytes × List Bytes) :=
  match Search.find headers_end wire with
  | some header_end => .ok (header_end, wire, pieces)
  | none =>
    if wire.length ≥ config.max_header_bytes then
      .error (.refused 431 "Request headers are too large")
    else
      match pieces with
      | [] => .error .closed
      | piece :: pieces =>
        if piece = [] then .error .closed else read_headers config (wire ++ piece) pieces

/-- The loop that reads the body. -/
def read_body (config : ServerConfig) (request : HttpRequest) (content_length body_start : Nat)
    (wire : Bytes) (pieces : List Bytes) : Outcome :=
  if wire.length - body_start < content_length then
    match pieces with
    | [] => .refused 400 "Incomplete request body"
    | piece :: pieces =>
      if piece = [] then .refused 400 "Incomplete request body"
      else if (wire ++ piece).length - body_start > config.max_body_bytes then
        .refused 413 "Request body is too large"
      else read_body config request content_length body_start (wire ++ piece) pieces
  else .handled { request with body := (wire.drop body_start).take content_length }

/-- **`handle_client`**, on what `recv` returns. -/
def handle_client (config : ServerConfig) (pieces : List Bytes) : Outcome :=
  match read_headers config [] pieces with
  | .error outcome => outcome
  | .ok (header_end, wire, pieces) =>
    match parse_headers config (wire.take header_end) with
    | .error outcome => outcome
    | .ok (request, content_length) =>
      read_body config request content_length (header_end + 4) wire pieces

/-- The pieces of a stream, each of them `recv` can return. -/
def Arrives (size : Nat) (stream : Bytes) (pieces : List Bytes) : Prop :=
  pieces.flatten = stream ∧ ∀ piece ∈ pieces, piece ≠ [] ∧ piece.length ≤ size

/-! ### The fuel of the header lines -/

/-- More fuel changes nothing. -/
theorem parse_header_lines_fuel {fuel : Nat} {headers : List (Bytes × Bytes)} {rest : Bytes}
    (h : rest.length ≤ fuel) :
    parse_header_lines fuel headers rest = parse_header_lines rest.length headers rest := by
  induction fuel using Nat.strongRecOn generalizing headers rest with
  | ind fuel ih =>
    cases fuel with
    | zero => rw [Nat.eq_zero_of_le_zero h]
    | succ fuel =>
      cases rest with
      | nil => rfl
      | cons b rest =>
        rw [List.length_cons] at h ⊢
        rw [parse_header_lines, parse_header_lines, if_neg (List.cons_ne_nil _ _),
          if_neg (List.cons_ne_nil _ _)]
        dsimp only
        split
        · rfl
        · have hdrop : ((b :: rest).drop
              ((Search.find line_end (b :: rest)).getD (b :: rest).length + 2)).length ≤
              rest.length := by
            rw [List.length_drop, List.length_cons]
            omega
          rw [ih fuel (Nat.lt_succ_self fuel) (by omega), ih rest.length (by omega) hdrop]

end HttpServer

end Qwen38
