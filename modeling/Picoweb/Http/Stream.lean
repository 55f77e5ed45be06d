import Picoweb.Http.Behind
import Picoweb.Lib.Run

/-!
# The requests of a stream

What a client sends on a connection is one stream of bytes. The requests of the stream are what the
parser finds at its front, then behind the headers of that request, and so on; where the bytes are cut
into reads does not matter.
-/

namespace Http

open ByteFile ByteText List

variable {last : Bytes → Bool} {buf inbox stream s : Bytes} {pr : HttpResult} {req : HttpRequest}

/-- The request at the front of a stream: what the parser says once the buffer holds as much as it can. -/
def front (stream : Bytes) : HttpResult × HttpRequest := httpParse (stream.take 8192)

lemma front_consumed (h : front stream = (.ok, req)) : 0 < req.consumed ∧ req.consumed ≤ stream.length := by
  obtain ⟨hpos, hle⟩ := consumed_of_ok h
  exact ⟨hpos, hle.trans (length_take_le' _ _)⟩

lemma length_drop_front (h : front stream = (.ok, req)) : (stream.drop req.consumed).length < stream.length := by
  obtain ⟨hpos, hle⟩ := front_consumed h
  rw [length_drop]
  omega

/-- The places of a stream where a request starts. The last one is a request that cannot be read, that asks
for the connection to be closed (one with a body does), or whose path is one of the `last`. -/
def starts (last : Bytes → Bool) (stream : Bytes) : List Bytes :=
  match _ : front stream with
  | (.needMore, _) => []
  | (.ok, req) =>
    stream :: if req.clientClose ∨ last (req.path.getD []) then [] else starts last (stream.drop req.consumed)
  | _ => [stream]
termination_by stream.length
decreasing_by exact length_drop_front ‹_›

/-- The request at `s` is accepted, and its path is one of the given ones. -/
def AtPath (paths : Bytes → Bool) (s : Bytes) : Prop :=
  (front s).1 = .ok ∧ paths ((front s).2.path.getD []) = true

/-- What the parser says about the buffer, it says about the stream. -/
lemma front_append (h : httpParse buf = (pr, req)) (hpr : pr ≠ .needMore) (hfits : buf.length ≤ 8192)
    (inbox : Bytes) : ∃ b, front (buf ++ inbox) = (pr, { req with hasLeftover := b }) := by
  rw [front, take_append, take_of_length_le hfits]
  refine httpParse_append h hpr ?_
  rw [length_append, length_take]
  omega

lemma starts_eq (last : Bytes → Bool) (stream : Bytes) : starts last stream =
    match front stream with
    | (.needMore, _) => []
    | (.ok, req) => stream ::
        if req.clientClose ∨ last (req.path.getD []) then [] else starts last (stream.drop req.consumed)
    | _ => [stream] := by
  rw [starts]
  split <;> simp [*]

lemma starts_of_ok (h : front stream = (.ok, req)) : starts last stream = stream ::
      if req.clientClose ∨ last (req.path.getD []) then [] else starts last (stream.drop req.consumed) := by
  rw [starts_eq, h]

lemma starts_of_error (h : front stream = (pr, req)) (hmore : pr ≠ .needMore) (hok : pr ≠ .ok) :
    starts last stream = [stream] := by
  rw [starts_eq, h]
  cases pr <;> trivial

/-- The request at the front of the buffer is the first of the stream; the next one, if there is one, follows
its headers. -/
lemma starts_append (last : Bytes → Bool) (h : httpParse buf = (pr, req)) (hpr : pr ≠ .needMore)
    (hfits : buf.length ≤ 8192) (inbox : Bytes) : ∃ b later, front (buf ++ inbox) = (pr, { req with hasLeftover := b }) ∧
      starts last (buf ++ inbox) = (buf ++ inbox) :: later ∧
      (later ≠ [] → pr = .ok ∧ last (req.path.getD []) = false ∧ req.clientClose = false) ∧
      (pr = .ok → last (req.path.getD []) = false → req.clientClose = false →
        later = starts last (buf.drop req.consumed ++ inbox)) := by
  obtain ⟨b, hfront⟩ := front_append h hpr hfits inbox
  by_cases hok : pr = .ok
  · subst hok
    refine ⟨b, _, hfront, starts_of_ok hfront, fun hne => ⟨rfl, ?_⟩, fun _ hapi hclose => ?_⟩
    · simpa [and_comm] using (ite_ne_left_iff.1 hne).1
    · rw [if_neg (by simp [hapi, hclose]), drop_append_of_le_length (consumed_of_ok h).2]
  · exact ⟨b, [], hfront, starts_of_error hfront hpr hok, nofun, fun h => absurd h hok⟩

lemma starts_of_needMore (h : front stream = (.needMore, req)) : starts last stream = [] := by
  rw [starts_eq, h]

lemma length_le_of_mem_starts (h : s ∈ starts last stream) : s.length ≤ stream.length := by
  induction hn : stream.length using Nat.strong_induction_on generalizing stream with
  | _ n ih =>
    rcases hfront : front stream with ⟨pr, req⟩
    by_cases hmore : pr = .needMore
    · subst hmore
      rw [starts_of_needMore hfront] at h
      exact absurd h not_mem_nil
    by_cases hok : pr = .ok
    · subst hok
      rw [starts_of_ok hfront] at h
      rcases mem_cons.mp h with rfl | h
      · exact hn.le
      split_ifs at h with hlast
      · exact absurd h not_mem_nil
      · have hdrop := hn ▸ length_drop_front hfront
        exact (ih _ hdrop h rfl).trans hdrop.le
    · rw [starts_of_error hfront hmore hok, mem_singleton] at h
      exact (congrArg length h).trans_le hn.le

/-! ### However the bytes arrive -/

/-- The accepted requests at the front of a stream, without the flag that tells of bytes behind them, and the
bytes where the next one is not complete or not accepted. -/
def split (stream : Bytes) : List HttpRequest × Bytes :=
  match _ : front stream with
  | (.ok, req) =>
    let rest := split (stream.drop req.consumed)
    ({ req with hasLeftover := false } :: rest.1, rest.2)
  | _ => ([], stream)
termination_by stream.length
decreasing_by exact length_drop_front ‹_›

lemma split_of_ok (h : front stream = (.ok, req)) : split stream =
    ({ req with hasLeftover := false } :: (split (stream.drop req.consumed)).1, (split (stream.drop req.consumed)).2) := by
  rw [split]
  split <;> simp_all

lemma split_of_ne (h : (front stream).1 ≠ .ok) : split stream = ([], stream) := by
  rw [split]
  split <;> simp_all

/-- Bytes that fill a buffer can be split first, and what is left of them together with the others. -/
lemma split_append (hfits : buf.length ≤ 8192) (inbox : Bytes) : split (buf ++ inbox) =
    ((split buf).1 ++ (split ((split buf).2 ++ inbox)).1, (split ((split buf).2 ++ inbox)).2) := by
  induction hn : buf.length using Nat.strong_induction_on generalizing buf with
  | _ n ih =>
    rcases hfront : front buf with ⟨pr, req⟩
    by_cases hok : pr = .ok
    · subst hok
      have hparse := hfront
      rw [front, take_of_length_le hfits] at hparse
      obtain ⟨b, happend⟩ := front_append hparse nofun hfits inbox
      obtain ⟨hpos, hle⟩ := consumed_of_ok hparse
      have hlen : (buf.drop req.consumed).length = n - req.consumed := by rw [length_drop, hn]
      rw [split_of_ok hfront, split_of_ok happend, drop_append_of_le_length hle,
        ih _ (by omega) (by omega) hlen, cons_append]
    · have hstuck : split buf = ([], buf) := split_of_ne (by rw [hfront]; exact hok)
      rw [hstuck, nil_append]

/-- Bytes arrive behind what the loop over the requests has left. -/
def feed (st : List HttpRequest × Bytes) (chunk : Bytes) : List HttpRequest × Bytes :=
  (st.1 ++ (split (st.2 ++ chunk)).1, (split (st.2 ++ chunk)).2)

/-- What the loop leaves is not split any further. -/
lemma split_rest (hfits : buf.length ≤ 8192) : split (split buf).2 = ([], (split buf).2) := by
  have hsame := split_append hfits []
  rw [append_nil, append_nil] at hsame
  exact Prod.ext (self_eq_append_right.1 (congrArg Prod.fst hsame)) (congrArg Prod.snd hsame).symm

lemma foldl_feed {st : List HttpRequest × Bytes} {chunks : List Bytes} (hrest : split st.2 = ([], st.2))
    (h : Run.Guarded feed (fun st chunk => (st.2 ++ chunk).length ≤ 8192) st chunks) :
    chunks.foldl feed st = (st.1 ++ (split (st.2 ++ chunks.flatten)).1, (split (st.2 ++ chunks.flatten)).2) := by
  induction chunks generalizing st with
  | nil => rw [foldl_nil, flatten_nil, append_nil, hrest, append_nil]
  | cons chunk chunks ih =>
    rw [foldl_cons, @ih (feed st chunk) (split_rest h.1) h.2, flatten_cons, ← append_assoc st.2,
      split_append h.1, ← append_assoc st.1]
    rfl

/-- Bytes behind a request that has an answer do not change it, and a stream that arrives in chunks which fit into
the buffer is split into the same requests as the whole. -/
theorem requests_independent_of_rest :
    (∀ buf more pr req, httpParse buf = (pr, req) → pr ≠ .needMore → (buf ++ more).length ≤ 8192 →
      ∃ b, httpParse (buf ++ more) = (pr, { req with hasLeftover := b })) ∧
    ∀ chunks, Run.Guarded feed (fun st chunk => (st.2 ++ chunk).length ≤ 8192) ([], []) chunks →
      chunks.foldl feed ([], []) = split chunks.flatten := by
  refine ⟨fun _ _ _ _ => httpParse_append, fun chunks h => ?_⟩
  exact foldl_feed (split_of_ne (by decide)) h

/-- Two requests that arrive together. -/
def rootTwice : Bytes := ascii "GET / HTTP/1.1\r\nHost: a\r\n\r\nGET / HTTP/1.1\r\nHost: a\r\n\r\n"

theorem requests_independent_of_rest_root :
    (∃ b, httpParse (rootTwice ++ [71]) = (.ok, { (httpParse rootTwice).2 with hasLeftover := b })) ∧
      [rootTwice].foldl feed ([], []) = split [rootTwice].flatten :=
  ⟨requests_independent_of_rest.1 _ _ .ok _ (Prod.ext (by decide +kernel) rfl) nofun (by decide),
    requests_independent_of_rest.2 _ ⟨by decide, trivial⟩⟩

end Http
