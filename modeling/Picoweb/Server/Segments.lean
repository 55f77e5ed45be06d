import Picoweb.Lib.ByteFile

/-!
# Responses as lists of segments

A response is sent from a list of segments and the number of bytes that are already out. `build_iov` of
`server.c`, and the same loop in `submit_sendmsg` of `server_uring.c`, compute the fragments still to send.
-/

namespace Server

open ByteFile List

/-- `build_iov`: what is left of the segments after `skip` bytes. -/
def buildIov : List Bytes → ℕ → List Bytes
  | [], _ => []
  | seg :: segs, skip =>
    if seg.length ≤ skip then buildIov segs (skip - seg.length)
    else seg.drop skip :: buildIov segs 0

/-- The fragments are the unsent rest of the response. -/
lemma flatten_buildIov (segs : List Bytes) (skip : ℕ) : (buildIov segs skip).flatten = segs.flatten.drop skip := by
  induction segs generalizing skip with
  | nil => simp [buildIov]
  | cons seg segs ih =>
    rw [buildIov, flatten_cons, drop_append]
    split_ifs with hskip
    · rw [ih, drop_eq_nil_of_le hskip, nil_append]
    · rw [flatten_cons, ih, Nat.sub_eq_zero_of_le (by omega)]

/-- Every fragment is the end of one segment. -/
lemma suffix_of_mem_buildIov {segs : List Bytes} {skip : ℕ} {frag : Bytes}
    (h : frag ∈ buildIov segs skip) : ∃ seg ∈ segs, frag <:+ seg := by
  induction segs generalizing skip with
  | nil => simp [buildIov] at h
  | cons seg segs ih =>
    rw [buildIov] at h
    split_ifs at h
    · obtain ⟨seg', hmem, hsuffix⟩ := ih h
      exact ⟨seg', mem_cons_of_mem _ hmem, hsuffix⟩
    · rcases mem_cons.1 h with rfl | h
      · exact ⟨seg, mem_cons_self, drop_suffix skip seg⟩
      · obtain ⟨seg', hmem, hsuffix⟩ := ih h
        exact ⟨seg', mem_cons_of_mem _ hmem, hsuffix⟩

end Server
