import Qwen38.Http.Request

/-!
# Requests and the pieces they arrive in

What `handle_client` makes of a stream does not depend on the pieces it arrives in, unless one
piece can pass over a check of the loops. The check of the size of the headers is passed over
when the piece that takes the headers over the limit has their end. The check of the size of
the body counts what stands behind the body, and is met only by a piece that has some of it.
Which streams are such is `Qwen38.HttpServer.Independent`.
-/

namespace Qwen38

namespace HttpServer

variable {config : ServerConfig} {size : Nat} {stream wire : Bytes} {pieces : List Bytes}

/-! ### The headers -/

theorem Arrives.mono {size' : Nat} (h : Arrives size stream pieces) (hle : size ≤ size') :
    Arrives size' stream pieces :=
  ⟨h.1, fun piece hpiece => ⟨(h.2 piece hpiece).1, Nat.le_trans (h.2 piece hpiece).2 hle⟩⟩

theorem Arrives.append {more : Bytes} {pieces' : List Bytes} (h : Arrives size stream pieces)
    (h' : Arrives size more pieces') : Arrives size (stream ++ more) (pieces ++ pieces') := by
  refine ⟨?_, fun piece hpiece => ?_⟩
  · rw [List.flatten_append, h.1, h'.1]
  · exact (List.mem_append.mp hpiece).elim (h.2 piece) (h'.2 piece)

/-- The end of the headers is not found before it has been read. -/
theorem find_headers_end_none {more : Bytes} {header_end : Nat}
    (h : Search.find headers_end (wire ++ more) = some header_end)
    (hlt : wire.length < header_end + 4) : Search.find headers_end wire = none := by
  have hleft := Search.find_left h
  have hbound : ¬header_end + headers_end.length ≤ wire.length := Nat.not_le_of_lt hlt
  rwa [if_neg hbound] at hleft

/-- A stream without an end of the headers. -/
theorem read_headers_none
    (h : Search.find headers_end (wire ++ pieces.flatten) = none)
    (hne : ∀ piece ∈ pieces, piece ≠ []) :
    read_headers config wire pieces =
      .error (if config.max_header_bytes ≤ (wire ++ pieces.flatten).length then
        .refused 431 "Request headers are too large" else .closed) := by
  induction pieces generalizing wire with
  | nil =>
    rw [List.flatten_nil, List.append_nil] at h ⊢
    rw [read_headers, h]
    dsimp only
    split
    · rfl
    · rfl
  | cons piece pieces ih =>
    have hwire := Search.find_none_of_append h
    rw [List.flatten_cons, ← List.append_assoc] at h ⊢
    rw [read_headers, hwire]
    dsimp only
    split
    · rename_i hlarge
      have hle : config.max_header_bytes ≤ (wire ++ piece ++ pieces.flatten).length := by
        rw [List.append_assoc, List.length_append]
        omega
      rw [if_pos hle]
    · rw [if_neg (hne piece List.mem_cons_self)]
      exact ih h fun p hp => hne p (List.mem_cons_of_mem _ hp)

/-- Headers within the limit are read whatever the pieces. -/
theorem read_headers_some {header_end : Nat}
    (h : Search.find headers_end (wire ++ pieces.flatten) = some header_end)
    (hpieces : ∀ piece ∈ pieces, piece ≠ [] ∧ piece.length ≤ size)
    (hle : header_end + 4 ≤ config.max_header_bytes) :
    ∃ wire' pieces', read_headers config wire pieces = .ok (header_end, wire', pieces') ∧
      wire' ++ pieces'.flatten = wire ++ pieces.flatten ∧ header_end + 4 ≤ wire'.length ∧
      ∀ piece ∈ pieces', piece ≠ [] ∧ piece.length ≤ size := by
  induction pieces generalizing wire with
  | nil =>
    rw [List.flatten_nil, List.append_nil] at h
    refine ⟨wire, [], ?_, rfl, Search.find_bound h, nofun⟩
    rw [read_headers, h]
  | cons piece pieces ih =>
    rcases Nat.lt_or_ge wire.length (header_end + 4) with hlt | hbound
    rotate_left
    · have hwire := Search.find_left h
      rw [if_pos (show header_end + headers_end.length ≤ wire.length from hbound)] at hwire
      refine ⟨wire, piece :: pieces, ?_, rfl, hbound, hpieces⟩
      rw [read_headers, hwire]
    · have hwire := find_headers_end_none h hlt
      have hsmall : ¬wire.length ≥ config.max_header_bytes := by omega
      rw [List.flatten_cons, ← List.append_assoc] at h ⊢
      rw [read_headers, hwire]
      dsimp only
      rw [if_neg hsmall, if_neg (hpieces piece List.mem_cons_self).1]
      exact ih h fun p hp => hpieces p (List.mem_cons_of_mem _ hp)

/-- Headers that end so far behind the limit that no piece reaches over are refused. -/
theorem read_headers_late {header_end : Nat}
    (h : Search.find headers_end (wire ++ pieces.flatten) = some header_end)
    (hpieces : ∀ piece ∈ pieces, piece ≠ [] ∧ piece.length ≤ size)
    (hlate : config.max_header_bytes = 0 ∨ config.max_header_bytes + size ≤ header_end + 4)
    (hwire : wire.length < header_end + 4) :
    read_headers config wire pieces = .error (.refused 431 "Request headers are too large") := by
  induction pieces generalizing wire with
  | nil =>
    rw [List.flatten_nil, List.append_nil] at h
    have hbound : header_end + 4 ≤ wire.length := Search.find_bound h
    omega
  | cons piece pieces ih =>
    rw [read_headers, find_headers_end_none h hwire]
    dsimp only
    split
    · rfl
    · rename_i hsmall
      obtain ⟨hne, hsize⟩ := hpieces piece List.mem_cons_self
      rw [if_neg hne]
      rw [List.flatten_cons, ← List.append_assoc] at h
      refine ih h (fun p hp => hpieces p (List.mem_cons_of_mem _ hp)) ?_
      rw [List.length_append]
      omega

/-- Pieces up to the limit are read without a check. -/
theorem read_headers_append {header_end : Nat} {first : List Bytes}
    (h : Search.find headers_end (wire ++ (first ++ pieces).flatten) = some header_end)
    (hne : ∀ piece ∈ first, piece ≠ [])
    (hlimit : (wire ++ first.flatten).length ≤ config.max_header_bytes)
    (hend : (wire ++ first.flatten).length ≤ header_end + 4) :
    read_headers config wire (first ++ pieces) =
      read_headers config (wire ++ first.flatten) pieces := by
  induction first generalizing wire with
  | nil => rw [List.nil_append, List.flatten_nil, List.append_nil]
  | cons piece first ih =>
    have hpos := List.length_pos_iff.mpr (hne piece List.mem_cons_self)
    rw [List.flatten_cons, ← List.append_assoc] at hlimit hend ⊢
    rw [List.cons_append] at h ⊢
    have hlonger : wire.length < (wire ++ piece ++ first.flatten).length := by
      rw [List.length_append, List.length_append]
      omega
    have hnone := find_headers_end_none h (Nat.lt_of_lt_of_le hlonger hend)
    rw [List.flatten_cons, ← List.append_assoc] at h
    rw [read_headers, hnone]
    dsimp only
    rw [if_neg (by omega), if_neg (hne piece List.mem_cons_self)]
    exact ih h (fun p hp => hne p (List.mem_cons_of_mem _ hp)) hlimit hend

/-! ### The body -/

section Body

variable {request : HttpRequest} {content_length body_start : Nat}

/-- A stream that ends in the body. -/
theorem read_body_short (hlt : (wire ++ pieces.flatten).length - body_start < content_length)
    (hlimit : content_length ≤ config.max_body_bytes) :
    read_body config request content_length body_start wire pieces =
      .refused 400 "Incomplete request body" := by
  induction pieces generalizing wire with
  | nil =>
    rw [List.flatten_nil, List.append_nil] at hlt
    rw [read_body, if_pos hlt]
  | cons piece pieces ih =>
    rw [List.flatten_cons, ← List.append_assoc] at hlt
    have hpiece : (wire ++ piece).length - body_start ≤
        (wire ++ piece ++ pieces.flatten).length - body_start := by
      have hlength : (wire ++ piece ++ pieces.flatten).length =
          (wire ++ piece).length + pieces.flatten.length := List.length_append
      omega
    have hwire : wire.length - body_start < content_length := by
      rw [List.length_append] at hpiece
      omega
    rw [read_body, if_pos hwire]
    split
    · rfl
    · rw [if_neg (by omega)]
      exact ih hlt

/-- A body that no piece takes over the limit is read whatever the pieces. -/
theorem read_body_full (hstart : body_start ≤ wire.length)
    (hpieces : ∀ piece ∈ pieces, piece ≠ [] ∧ piece.length ≤ size)
    (hge : content_length ≤ (wire ++ pieces.flatten).length - body_start)
    (hlimit : content_length = 0 ∨
      (wire ++ pieces.flatten).length - body_start ≤ config.max_body_bytes ∨
      content_length + size ≤ config.max_body_bytes + 1) :
    read_body config request content_length body_start wire pieces =
      .handled { request with
        body := ((wire ++ pieces.flatten).drop body_start).take content_length } := by
  induction pieces generalizing wire with
  | nil =>
    rw [List.flatten_nil, List.append_nil] at hge ⊢
    rw [read_body, if_neg (by omega)]
  | cons piece pieces ih =>
    by_cases hwire : wire.length - body_start < content_length
    · obtain ⟨hne, hsize⟩ := hpieces piece List.mem_cons_self
      rw [List.flatten_cons, ← List.append_assoc] at hge hlimit ⊢
      have hlong : ¬(wire ++ piece).length - body_start > config.max_body_bytes := by
        have hlength : (wire ++ piece ++ pieces.flatten).length =
            (wire ++ piece).length + pieces.flatten.length := List.length_append
        have hpiece : (wire ++ piece).length = wire.length + piece.length := List.length_append
        omega
      rw [read_body, if_pos hwire]
      rw [if_neg hne, if_neg hlong]
      refine ih ?_ (fun p hp => hpieces p (List.mem_cons_of_mem _ hp)) hge hlimit
      rw [List.length_append]
      omega
    · rw [read_body, if_neg hwire, List.drop_append_of_le_length hstart,
        List.take_append_of_le_length (by rw [List.length_drop]; omega)]

/-- Pieces up to the end of the body are read without a check that fails. -/
theorem read_body_append {first : List Bytes} (hne : ∀ piece ∈ first, piece ≠ [])
    (hstart : body_start ≤ wire.length)
    (hle : (wire ++ first.flatten).length - body_start ≤ content_length)
    (hlimit : content_length ≤ config.max_body_bytes) :
    read_body config request content_length body_start wire (first ++ pieces) =
      read_body config request content_length body_start (wire ++ first.flatten) pieces := by
  induction first generalizing wire with
  | nil => rw [List.nil_append, List.flatten_nil, List.append_nil]
  | cons piece first ih =>
    have hpos := List.length_pos_iff.mpr (hne piece List.mem_cons_self)
    rw [List.flatten_cons, ← List.append_assoc] at hle ⊢
    have hpiece : (wire ++ piece).length - body_start ≤ content_length := by
      have hlength : (wire ++ piece ++ first.flatten).length =
          (wire ++ piece).length + first.flatten.length := List.length_append
      omega
    have hwire : wire.length - body_start < content_length := by
      rw [List.length_append] at hpiece
      omega
    rw [List.cons_append, read_body, if_pos hwire]
    rw [if_neg (hne piece List.mem_cons_self), if_neg (by omega)]
    refine ih (fun p hp => hne p (List.mem_cons_of_mem _ hp)) ?_ hle
    rw [List.length_append]
    omega

end Body

/-! ### Streams whose pieces do not matter -/

/-- **The streams no piece of the given size takes past a check.** The headers end within the
limit, or the limit is so far before their end that no piece reaches over; and within the limit,
there is no body, or no more behind the headers than a body may have, or the body is so short
that no piece reaches from it over the limit. -/
def Independent (config : ServerConfig) (size : Nat) (stream : Bytes) : Prop :=
  ∀ header_end, Search.find headers_end stream = some header_end →
    (header_end + 4 ≤ config.max_header_bytes ∧
      ∀ request content_length,
        parse_headers config (stream.take header_end) = .ok (request, content_length) →
          content_length = 0 ∨ stream.length - (header_end + 4) ≤ config.max_body_bytes ∨
            content_length + size ≤ config.max_body_bytes + 1) ∨
    config.max_header_bytes = 0 ∨ config.max_header_bytes + size ≤ header_end + 4

/-- What `handle_client` makes of a stream that arrives byte by byte. -/
def bytewise_outcome (config : ServerConfig) (stream : Bytes) : Outcome :=
  match Search.find headers_end stream with
  | none =>
    if config.max_header_bytes ≤ stream.length then
      .refused 431 "Request headers are too large"
    else .closed
  | some header_end =>
    if config.max_header_bytes < header_end + 4 then .refused 431 "Request headers are too large"
    else
      match parse_headers config (stream.take header_end) with
      | .error outcome => outcome
      | .ok (request, content_length) =>
        if stream.length - (header_end + 4) < content_length then
          .refused 400 "Incomplete request body"
        else
          .handled { request with body := (stream.drop (header_end + 4)).take content_length }

/-- The length of a body is checked before it is read. -/
theorem content_length_le {headers : Bytes} {request : HttpRequest} {content_length : Nat}
    (h : parse_headers config headers = .ok (request, content_length)) :
    content_length ≤ config.max_body_bytes := by
  rw [parse_headers] at h
  split at h
  · exact absurd h nofun
  · split at h
    · exact absurd h nofun
    · split at h
      · exact absurd h nofun
      · split at h
        · exact absurd h nofun
        · split at h
          · exact absurd h nofun
          · rename_i hle
            obtain ⟨-, rfl⟩ := Prod.mk.inj (Except.ok.inj h)
            exact Nat.not_lt.mp hle

/-- **A stream whose pieces do not matter** is read as if it came byte by byte. -/
theorem handle_client_of_independent (h : Independent config size stream) (hpos : 0 < size)
    (harrives : Arrives size stream pieces) :
    handle_client config pieces = bytewise_outcome config stream := by
  obtain ⟨hflatten, hpieces⟩ := harrives
  have hwire : ([] : Bytes) ++ pieces.flatten = stream := hflatten
  rw [handle_client, bytewise_outcome]
  cases hfind : Search.find headers_end stream with
  | none =>
    rw [← hwire] at hfind
    rw [read_headers_none hfind fun p hp => (hpieces p hp).1, hwire]
  | some header_end =>
    dsimp only
    rw [← hwire] at hfind
    rcases h header_end (hwire ▸ hfind) with ⟨hle, hbody⟩ | hlate
    -- the end of the headers is within the limit, whichever piece it comes in
    · obtain ⟨wire, rest, hread, hrest, hbound, hsize⟩ := read_headers_some hfind hpieces hle
      rw [hwire] at hrest
      have htake : wire.take header_end = stream.take header_end := by
        rw [← hrest, List.take_append_of_le_length (by omega)]
      rw [hread, if_neg (Nat.not_lt.mpr hle)]
      dsimp only
      rw [htake]
      cases hparse : parse_headers config (stream.take header_end) with
      | error outcome => rfl
      | ok parsed =>
        obtain ⟨request, content_length⟩ := parsed
        have hlimit := content_length_le hparse
        dsimp only
        -- the body ends too early, or is all there
        by_cases hshort : stream.length - (header_end + 4) < content_length
        · rw [if_pos hshort]
          exact read_body_short (by rw [hrest]; exact hshort) hlimit
        · rw [if_neg hshort, ← hrest]
          rw [← hrest] at hshort
          refine read_body_full hbound hsize (Nat.not_lt.mp hshort) ?_
          rw [hrest]
          exact hbody request content_length hparse
    · have hlt : config.max_header_bytes < header_end + 4 := by omega
      rw [if_pos hlt, read_headers_late hfind hpieces hlate (by simp)]

/-- Byte by byte, no stream is taken past a check. -/
theorem independent_one (config : ServerConfig) (stream : Bytes) : Independent config 1 stream := by
  intro header_end _
  rcases Nat.lt_or_ge config.max_header_bytes (header_end + 4) with hlt | hle
  · exact Or.inr (Or.inr hlt)
  · refine Or.inl ⟨hle, fun request content_length hparse => Or.inr (Or.inr ?_)⟩
    exact Nat.succ_le_succ (content_length_le hparse)

/-! ### Streams whose pieces matter -/

/-- A stream byte by byte. -/
def bytewise (stream : Bytes) : List Bytes := stream.map ([·])

theorem flatten_bytewise (stream : Bytes) : (bytewise stream).flatten = stream := by
  induction stream with
  | nil => rfl
  | cons b stream ih => exact congrArg (b :: ·) ih

theorem bytewise_arrives (stream : Bytes) : Arrives 1 stream (bytewise stream) := by
  refine ⟨flatten_bytewise stream, fun piece hpiece => ?_⟩
  obtain ⟨b, -, rfl⟩ := List.mem_map.mp hpiece
  exact ⟨List.cons_ne_nil _ _, Nat.le_refl 1⟩

theorem handle_client_bytewise (config : ServerConfig) (stream : Bytes) :
    handle_client config (bytewise stream) = bytewise_outcome config stream :=
  handle_client_of_independent (independent_one config stream) Nat.one_pos (bytewise_arrives stream)

/-- One piece of a stream, and the other bytes one by one. -/
def with_piece (first count : Nat) (stream : Bytes) : List Bytes :=
  bytewise (stream.take first) ++
    ((stream.drop first).take count :: bytewise (stream.drop (first + count)))

/-- A stream around one piece. -/
theorem take_append_piece (first count : Nat) (stream : Bytes) :
    (stream.drop first).take count ++ stream.drop (first + count) = stream.drop first := by
  rw [← List.drop_drop, List.take_append_drop]

theorem with_piece_arrives {first count : Nat} (hcount : 0 < count) (hsize : count ≤ size)
    (hle : first + count ≤ stream.length) : Arrives size stream (with_piece first count stream) := by
  have hone : 1 ≤ size := Nat.le_trans hcount hsize
  have hpiece : Arrives size ((stream.drop first).take count) [(stream.drop first).take count] := by
    refine ⟨by simp, fun piece hmem => ?_⟩
    obtain rfl := List.mem_singleton.mp hmem
    refine ⟨List.ne_nil_of_length_pos ?_, ?_⟩
    · rw [List.length_take, List.length_drop]
      omega
    · rw [List.length_take]
      omega
  have hall := ((bytewise_arrives (stream.take first)).mono hone).append
    (hpiece.append ((bytewise_arrives (stream.drop (first + count))).mono hone))
  rw [take_append_piece, List.take_append_drop] at hall
  exact hall

/-- The headers up to a place within the limit, byte by byte. -/
theorem read_headers_bytewise {header_end n : Nat}
    (hfind : Search.find headers_end stream = some header_end)
    (hlimit : n ≤ config.max_header_bytes) (hend : n ≤ header_end + 4) {more : List Bytes}
    (hmore : more.flatten = stream.drop n) :
    read_headers config [] (bytewise (stream.take n) ++ more) =
      read_headers config (stream.take n) more := by
  have hlength : (stream.take n).length ≤ n := List.length_take_le n stream
  have hne : ∀ piece ∈ bytewise (stream.take n), piece ≠ [] := fun piece hpiece =>
    ((bytewise_arrives (stream.take n)).2 piece hpiece).1
  have hwire : ([] : Bytes) ++ (bytewise (stream.take n)).flatten = stream.take n := by
    rw [flatten_bytewise, List.nil_append]
  have hstream : ([] : Bytes) ++ (bytewise (stream.take n) ++ more).flatten = stream := by
    rw [List.flatten_append, hmore, ← List.append_assoc, hwire, List.take_append_drop]
  rw [← hstream] at hfind
  rw [read_headers_append hfind hne (by rw [hwire]; omega) (by rw [hwire]; omega), hwire]

/-- The headers are found once they have been read. -/
theorem read_headers_found {header_end : Nat}
    (hfind : Search.find headers_end stream = some header_end) (pieces : List Bytes) :
    read_headers config (stream.take (header_end + 4)) pieces =
      .ok (header_end, stream.take (header_end + 4), pieces) := by
  have hbound : header_end + 4 ≤ stream.length := Search.find_bound hfind
  have hsplit := hfind
  rw [← List.take_append_drop (header_end + 4) stream] at hsplit
  have hleft := Search.find_left hsplit
  have hle : header_end + headers_end.length ≤ (stream.take (header_end + 4)).length := by
    rw [List.length_take, Nat.min_eq_left hbound]
    exact Nat.le_refl _
  rw [if_pos hle] at hleft
  rw [read_headers.eq_def, hleft]

theorem refused_ne_431 {headers : Bytes} {outcome : Outcome}
    (h : parse_headers config headers = .error outcome) (message : String) :
    outcome ≠ .refused 431 message := by
  rintro rfl
  rw [parse_headers] at h
  split at h
  · cases h
  · split at h
    · cases h
    · split at h
      · cases h
      · split at h
        · cases h
        · split at h
          · cases h
          · cases h

theorem read_body_ne_431 (request : HttpRequest) (content_length body_start : Nat) (wire : Bytes)
    (pieces : List Bytes) (message : String) :
    read_body config request content_length body_start wire pieces ≠ .refused 431 message := by
  induction pieces generalizing wire with
  | nil =>
    rw [read_body]
    split
    · nofun
    · nofun
  | cons piece pieces ih =>
    rw [read_body]
    split
    · split
      · nofun
      · split
        · nofun
        · exact ih _
    · nofun

/-- A piece that takes the headers over the limit and has their end is let through. -/
theorem handle_client_past_header_limit {header_end : Nat}
    (hfind : Search.find headers_end stream = some header_end)
    (hpos : 0 < config.max_header_bytes) (hlt : config.max_header_bytes < header_end + 4)
    (message : String) :
    handle_client config
        (with_piece (config.max_header_bytes - 1)
          (header_end + 4 - (config.max_header_bytes - 1)) stream) ≠ .refused 431 message := by
  have hbound : header_end + 4 ≤ stream.length := Search.find_bound hfind
  generalize hn : config.max_header_bytes - 1 = n
  have hfirst : (stream.take n).length = n := by
    rw [List.length_take]
    omega
  have hpiece : stream.take n ++ (stream.drop n).take (header_end + 4 - n) =
      stream.take (header_end + 4) := by
    rw [← List.take_add, Nat.add_sub_cancel' (by omega)]
  have hne : (stream.drop n).take (header_end + 4 - n) ≠ [] := by
    refine List.ne_nil_of_length_pos ?_
    rw [List.length_take, List.length_drop]
    omega
  -- the piece before it has no end of the headers, and is below the limit
  have hnone : Search.find headers_end (stream.take n) = none := by
    have hsplit := hfind
    rw [← List.take_append_drop n stream] at hsplit
    exact find_headers_end_none hsplit (by omega)
  have hread : read_headers config [] (with_piece n (header_end + 4 - n) stream) =
      .ok (header_end, stream.take (header_end + 4),
        bytewise (stream.drop (n + (header_end + 4 - n)))) := by
    rw [with_piece, read_headers_bytewise hfind (by omega) (by omega)
      (by rw [List.flatten_cons, flatten_bytewise, take_append_piece]), read_headers, hnone]
    dsimp only
    rw [if_neg (by omega), if_neg hne, hpiece, read_headers_found hfind]
  rw [handle_client, hread]
  dsimp only
  split
  · rename_i outcome hparse
    exact refused_ne_431 hparse message
  · exact read_body_ne_431 _ _ _ _ _ _

/-- A piece that takes the stream from within the body over the limit of a body is refused. -/
theorem handle_client_past_body_limit {header_end content_length : Nat} {request : HttpRequest}
    (hfind : Search.find headers_end stream = some header_end)
    (hheaders : header_end + 4 ≤ config.max_header_bytes)
    (hparse : parse_headers config (stream.take header_end) = .ok (request, content_length))
    (hpos : 0 < content_length)
    (hlong : config.max_body_bytes < stream.length - (header_end + 4)) :
    handle_client config
        (with_piece (header_end + 4 + (content_length - 1))
          (config.max_body_bytes + 2 - content_length) stream) =
      .refused 413 "Request body is too large" := by
  have hlimit := content_length_le hparse
  have hbound : header_end + 4 ≤ stream.length := Search.find_bound hfind
  generalize hfirst : header_end + 4 + (content_length - 1) = first
  generalize hcount : config.max_body_bytes + 2 - content_length = count
  have htake : stream.take first = stream.take (header_end + 4) ++
      (stream.drop (header_end + 4)).take (content_length - 1) := by
    rw [← hfirst, List.take_add]
  -- the headers, the body up to its last byte, and the piece
  have hpieces : with_piece first count stream = bytewise (stream.take (header_end + 4)) ++
      (bytewise ((stream.drop (header_end + 4)).take (content_length - 1)) ++
        ((stream.drop first).take count :: bytewise (stream.drop (first + count)))) := by
    rw [with_piece, htake, bytewise, List.map_append, List.append_assoc]
    rfl
  have hrest : (bytewise ((stream.drop (header_end + 4)).take (content_length - 1)) ++
      ((stream.drop first).take count :: bytewise (stream.drop (first + count)))).flatten =
      stream.drop (header_end + 4) := by
    rw [List.flatten_append, List.flatten_cons, flatten_bytewise, flatten_bytewise,
      take_append_piece, ← hfirst, take_append_piece]
  have hparsed : parse_headers config ((stream.take (header_end + 4)).take header_end) =
      .ok (request, content_length) := by
    rw [List.take_take, Nat.min_eq_left (by omega)]
    exact hparse
  have hlength : (stream.take first).length = first := by
    rw [List.length_take]
    omega
  have hpiece : (stream.take first ++ (stream.drop first).take count).length = first + count := by
    rw [← List.take_add, List.length_take]
    omega
  have hne : (stream.drop first).take count ≠ [] := by
    refine List.ne_nil_of_length_pos ?_
    rw [List.length_take, List.length_drop]
    omega
  rw [hpieces, handle_client, read_headers_bytewise hfind hheaders (Nat.le_refl _) hrest,
    read_headers_found hfind]
  dsimp only
  rw [hparsed]
  dsimp only
  rw [read_body_append (fun piece hpiece => ((bytewise_arrives _).2 piece hpiece).1)
    (by rw [List.length_take]; omega) (by rw [flatten_bytewise, ← htake, hlength]; omega) hlimit,
    flatten_bytewise, ← htake, read_body, if_pos (by rw [hlength]; omega), if_neg hne,
    if_pos (by rw [hpiece]; omega)]

/-- Headers that end behind the limit, within reach of a piece. -/
theorem exists_pieces_of_header {header_end : Nat}
    (hfind : Search.find headers_end stream = some header_end)
    (hpos : 0 < config.max_header_bytes) (hlt : config.max_header_bytes < header_end + 4)
    (hnear : header_end + 4 < config.max_header_bytes + size) :
    ∃ pieces, Arrives size stream pieces ∧
      handle_client config pieces ≠ bytewise_outcome config stream := by
  have hbound : header_end + 4 ≤ stream.length := Search.find_bound hfind
  have hcount : 0 < header_end + 4 - (config.max_header_bytes - 1) := by omega
  refine ⟨_, with_piece_arrives hcount (by omega)
    (show config.max_header_bytes - 1 + _ ≤ _ by omega), ?_⟩
  have hrefused : bytewise_outcome config stream =
      .refused 431 "Request headers are too large" := by
    rw [bytewise_outcome, hfind]
    exact if_pos hlt
  rw [hrefused]
  exact handle_client_past_header_limit hfind hpos hlt _

/-- A body within reach of a piece that takes the stream over the limit. -/
theorem exists_pieces_of_body {header_end content_length : Nat} {request : HttpRequest}
    (hfind : Search.find headers_end stream = some header_end)
    (hheaders : header_end + 4 ≤ config.max_header_bytes)
    (hparse : parse_headers config (stream.take header_end) = .ok (request, content_length))
    (hpos : content_length ≠ 0)
    (hlong : config.max_body_bytes < stream.length - (header_end + 4))
    (hnear : config.max_body_bytes + 1 < content_length + size) :
    ∃ pieces, Arrives size stream pieces ∧
      handle_client config pieces ≠ bytewise_outcome config stream := by
  have hlimit := content_length_le hparse
  have hcount : 0 < config.max_body_bytes + 2 - content_length := by omega
  refine ⟨_, with_piece_arrives hcount (by omega)
    (show header_end + 4 + (content_length - 1) + _ ≤ _ by omega), ?_⟩
  rw [handle_client_past_body_limit hfind hheaders hparse (by omega) hlong, bytewise_outcome, hfind]
  dsimp only
  rw [if_neg (by omega), hparse]
  dsimp only
  rw [if_neg (by omega)]
  nofun

/-- **What `handle_client` makes of a stream does not depend on the pieces it arrives in** exactly
if no piece that `recv` can return takes it past a check. -/
theorem handle_client_independent_iff (config : ServerConfig) (stream : Bytes) :
    (∀ pieces pieces', Arrives buffer_size stream pieces → Arrives buffer_size stream pieces' →
      handle_client config pieces = handle_client config pieces') ↔
    Independent config buffer_size stream := by
  constructor
  · intro h header_end hfind
    have hbytewise : ¬∃ pieces, Arrives buffer_size stream pieces ∧
        handle_client config pieces ≠ bytewise_outcome config stream := by
      rintro ⟨pieces, hpieces, hne⟩
      rw [← handle_client_bytewise] at hne
      exact hne (h _ _ hpieces ((bytewise_arrives stream).mono (by decide)))
    by_contra hnot
    rw [not_or, not_or, not_and] at hnot
    obtain ⟨hbody, hzero, hlate⟩ := hnot
    rcases Nat.lt_or_ge config.max_header_bytes (header_end + 4) with hlt | hle
    · exact hbytewise (exists_pieces_of_header hfind (Nat.pos_of_ne_zero hzero) hlt
        (Nat.not_le.mp hlate))
    · have hbody := hbody hle
      push Not at hbody
      obtain ⟨request, content_length, hparse, hne, hlong, hnear⟩ := hbody
      exact hbytewise (exists_pieces_of_body hfind hle hparse hne hlong hnear)
  · intro h pieces pieces' hpieces hpieces'
    rw [handle_client_of_independent h (by decide) hpieces,
      handle_client_of_independent h (by decide) hpieces']

/-- A request with one header. -/
def request_of_field (field : Bytes) : Bytes :=
  ascii "GET / HTTP/1.1".toList ++ (line_end ++ (field ++ headers_end))

theorem find_request_of_field {field : Bytes} (hne : field ≠ []) (h : (13 : UInt8) ∉ field) :
    Search.find headers_end (request_of_field field) = some (field.length + 16) := by
  have hline : (13 : UInt8) ∉ ascii "GET / HTTP/1.1".toList := by decide
  have hfield : (13 : UInt8) ∉ 10 :: field := by
    rw [List.mem_cons, not_or]
    exact ⟨by decide, h⟩
  have hlast : Search.find headers_end headers_end = some 0 :=
    Search.find_of_prefix (List.prefix_refl _)
  -- the first line ends where the header begins
  have hnot : ¬headers_end <+: 13 :: (10 :: field ++ headers_end) := by
    rintro ⟨t, ht⟩
    obtain ⟨-, hten⟩ := List.cons.inj ht
    obtain ⟨-, hthird⟩ := List.cons.inj hten
    cases field with
    | nil => exact hne rfl
    | cons b field => exact h (by rw [← (List.cons.inj hthird).1]; exact List.mem_cons_self)
  have hsecond : Search.find headers_end (line_end ++ (field ++ headers_end)) =
      some (field.length + 2) := by
    change Search.find headers_end (13 :: (10 :: field ++ headers_end)) = _
    rw [Search.find, if_neg hnot, headers_end, Search.find_append_of_not_mem hfield, ← headers_end,
      hlast]
    simp
  rw [request_of_field, headers_end, Search.find_append_of_not_mem hline, ← headers_end, hsecond]
  rfl

/-- The request is refused when it arrives byte by byte, and not when one piece takes it over the
limit of the headers. -/
theorem large_request_depends :
    ¬∀ (config : ServerConfig) (stream : Bytes) (pieces pieces' : List Bytes),
      Arrives buffer_size stream pieces → Arrives buffer_size stream pieces' →
        handle_client config pieces = handle_client config pieces' := by
  intro h
  have hfield : (13 : UInt8) ∉ ascii ['A', ':', ' '] ++ List.replicate 65536 97 := by
    rw [List.mem_append, not_or]
    exact ⟨by decide, fun hmem => absurd (List.eq_of_mem_replicate hmem) (by decide)⟩
  have hne : ascii ['A', ':', ' '] ++ List.replicate 65536 97 ≠ [] :=
    List.append_ne_nil_of_left_ne_nil (by decide) _
  have hfind := find_request_of_field hne hfield
  rw [List.length_append, List.length_replicate] at hfind
  obtain ⟨pieces, hpieces, hother⟩ := exists_pieces_of_header hfind
    (show 0 < ({} : ServerConfig).max_header_bytes by decide) (by decide)
    (show _ < _ + buffer_size by decide)
  rw [← handle_client_bytewise] at hother
  exact hother (h _ _ _ _ hpieces ((bytewise_arrives _).mono (by decide)))

end HttpServer

end Qwen38
