import Mathlib.Data.List.Basic

/-!
# Requests and replies on one connection

A client makes requests one after another on a connection that keeps the order of messages.  Each
request sends some messages that the server answers, one reply for each, and after it the client may
take the next reply off the connection, whichever that is.  If no reply is on its way it waits
forever.  Nothing in a reply names the message it answers, so the two sides stay in step only if
every request takes as many replies as it causes.

* `Client.run`: the exchanges of a list of requests, and the replies left unread.
* `Client.Aligned`: an exchange that starts with nothing unread and takes no reply but its own.
* `Client.run_balanced`: the step, for a request that takes as many replies as it causes.
* `Client.run_aligned_iff`: a run stays aligned exactly when all of its requests do that.
-/

namespace LsmFork
namespace RequestReply

/-- What a request does: the messages it sends that the server answers, and whether it then takes
a reply. -/
structure Client (ρ φ : Type*) where
  answered : ρ → List φ
  waits : ρ → Bool

/-- The reply to a message of the request with the given number. -/
structure Reply (φ : Type*) where
  request : ℕ
  message : φ
  deriving DecidableEq

/-- A request, the replies that were unread when it was made, and the one that it took. -/
structure Exchange (ρ φ : Type*) where
  index : ℕ
  request : ρ
  unread : List (Reply φ)
  taken : Option (Reply φ)

namespace Client

variable {ρ φ : Type*} (c : Client ρ φ)

/-- The exchanges of the requests, numbered from `i`, on a connection with the given replies unread,
and the replies unread after them.  A request that waits in vain ends the run. -/
def run : ℕ → List ρ → List (Reply φ) → List (Exchange ρ φ) × List (Reply φ)
  | _, [], unread => ([], unread)
  | i, r :: rs, unread =>
    let arrived := unread ++ (c.answered r).map (Reply.mk i)
    if c.waits r then
      match arrived with
      | [] => ([⟨i, r, unread, none⟩], [])
      | first :: left =>
        let rest := run (i + 1) rs left
        (⟨i, r, unread, some first⟩ :: rest.1, rest.2)
    else
      let rest := run (i + 1) rs arrived
      (⟨i, r, unread, none⟩ :: rest.1, rest.2)

/-- Nothing was unread, the reply taken answers a message of this request, and the request waits
only if it has sent such a message. -/
def Aligned (e : Exchange ρ φ) : Prop :=
  e.unread = [] ∧ (∀ reply ∈ e.taken, reply.request = e.index ∧
    reply.message ∈ c.answered e.request) ∧ (c.waits e.request = true → c.answered e.request ≠ [])

/-- All exchanges of a run are aligned, and it leaves nothing unread for the next request. -/
def RunAligned (i : ℕ) (rs : List ρ) (unread : List (Reply φ)) : Prop :=
  (∀ e ∈ (c.run i rs unread).1, c.Aligned e) ∧ (c.run i rs unread).2 = []

/-- A request takes as many replies as it causes. -/
def Balanced (r : ρ) : Prop := (c.answered r).length = if c.waits r then 1 else 0

theorem run_head (i : ℕ) (r : ρ) (rs : List ρ) (unread : List (Reply φ)) :
    ∃ taken rest, (c.run i (r :: rs) unread).1 = ⟨i, r, unread, taken⟩ :: rest := by
  rw [run]
  split
  · split
    · exact ⟨_, _, rfl⟩
    · exact ⟨_, _, rfl⟩
  · exact ⟨_, _, rfl⟩

variable {c} {i : ℕ} {r : ρ} {rs : List ρ} {unread : List (Reply φ)}

/-- A request that does not wait leaves the replies that it causes. -/
theorem run_of_not_waits (h : c.waits r = false) : c.run i (r :: rs) unread =
    (⟨i, r, unread, none⟩ ::
        (c.run (i + 1) rs (unread ++ (c.answered r).map (Reply.mk i))).1,
      (c.run (i + 1) rs (unread ++ (c.answered r).map (Reply.mk i))).2) := by
  rw [run, if_neg (by simp [h])]

theorem run_of_waits {first : Reply φ} {left : List (Reply φ)} (h : c.waits r = true)
    (harrived : unread ++ (c.answered r).map (Reply.mk i) = first :: left) :
    c.run i (r :: rs) unread =
      (⟨i, r, unread, some first⟩ :: (c.run (i + 1) rs left).1, (c.run (i + 1) rs left).2) := by
  rw [run, if_pos h, harrived]

theorem run_of_waits_nil (h : c.waits r = true)
    (harrived : unread ++ (c.answered r).map (Reply.mk i) = []) :
    c.run i (r :: rs) unread = ([⟨i, r, unread, none⟩], []) := by
  rw [run, if_pos h, harrived]

theorem taken_of_not_waits {e : Exchange ρ φ} (he : e ∈ (c.run i rs unread).1)
    (hwaits : c.waits e.request = false) : e.taken = none := by
  induction rs generalizing i unread with
  | nil => cases he
  | cons r rs ih =>
    rw [run] at he
    split at he
    · rename_i hr
      split at he
      · rw [List.mem_singleton.mp he]
      · rcases List.mem_cons.mp he with rfl | he
        · rw [hwaits] at hr
          cases hr
        · exact ih he
    · rcases List.mem_cons.mp he with rfl | he
      · rfl
      · exact ih he

/-- A run that starts with a reply unread is not aligned. -/
theorem not_runAligned_of_unread (h : unread ≠ []) : ¬ c.RunAligned i rs unread := by
  rintro ⟨haligned, hleft⟩
  cases rs with
  | nil => exact h hleft
  | cons r rs =>
    obtain ⟨taken, rest, hhead⟩ := c.run_head i r rs unread
    exact h (haligned ⟨i, r, unread, taken⟩ (hhead ▸ List.mem_cons_self)).1

/-- **A balanced request** on an empty connection is aligned and leaves the connection empty. -/
theorem run_balanced (i : ℕ) (rs : List ρ) (h : c.Balanced r) :
    ∃ taken, c.Aligned ⟨i, r, [], taken⟩ ∧ c.run i (r :: rs) [] =
      (⟨i, r, [], taken⟩ :: (c.run (i + 1) rs []).1, (c.run (i + 1) rs []).2) := by
  rw [Balanced] at h
  cases hwaits : c.waits r with
  | true =>
    rw [hwaits, if_pos rfl, List.length_eq_one_iff] at h
    obtain ⟨m, hm⟩ := h
    refine ⟨some ⟨i, m⟩, ⟨rfl, ?_, fun _ => by simp [hm]⟩, ?_⟩
    · intro reply hreply
      obtain rfl := Option.some.inj hreply
      exact ⟨rfl, by simp [hm]⟩
    · rw [run, if_pos hwaits, hm]
      rfl
  | false =>
    rw [hwaits, if_neg Bool.false_ne_true, List.length_eq_zero_iff] at h
    refine ⟨none, ⟨rfl, fun reply hreply => (by cases hreply), fun hw => ?_⟩, ?_⟩
    · rw [hwaits] at hw
      cases hw
    · rw [run, if_neg (by simp [hwaits]), h]
      rfl

/-- **A request that is not balanced** waits in vain, or leaves a reply unread. -/
theorem not_runAligned_of_not_balanced (h : ¬ c.Balanced r) : ¬ c.RunAligned i (r :: rs) [] := by
  rintro ⟨haligned, hleft⟩
  rw [Balanced] at h
  -- what the next request starts with
  have hstart : ∀ left, (∀ e ∈ (c.run (i + 1) rs left).1, c.Aligned e) →
      (c.run (i + 1) rs left).2 = [] → left = [] := by
    intro left hrest hfinal
    by_contra hne
    exact not_runAligned_of_unread hne ⟨hrest, hfinal⟩
  cases hwaits : c.waits r with
  | true =>
    rw [hwaits, if_pos rfl] at h
    rw [run, if_pos hwaits, List.nil_append] at haligned hleft
    cases hmsgs : c.answered r with
    | nil =>
      rw [hmsgs] at haligned
      exact (haligned _ List.mem_cons_self).2.2 hwaits hmsgs
    | cons m ms =>
      rw [hmsgs, List.map_cons] at haligned hleft
      have hempty := hstart _ (fun e he => haligned e (List.mem_cons_of_mem _ he)) hleft
      rw [List.map_eq_nil_iff] at hempty
      rw [hmsgs, hempty] at h
      exact h rfl
  | false =>
    rw [hwaits, if_neg Bool.false_ne_true] at h
    rw [run, if_neg (by simp [hwaits]), List.nil_append] at haligned hleft
    have hempty := hstart _ (fun e he => haligned e (List.mem_cons_of_mem _ he)) hleft
    rw [List.map_eq_nil_iff] at hempty
    exact h (List.length_eq_zero_iff.mpr hempty)

/-- **A run is aligned exactly when every request of it is balanced.** -/
theorem run_aligned_iff : c.RunAligned i rs [] ↔ ∀ r ∈ rs, c.Balanced r := by
  induction rs generalizing i with
  | nil => exact ⟨fun _ r hr => absurd hr (by simp), fun _ => ⟨fun e he => (by cases he), rfl⟩⟩
  | cons r rs ih =>
    by_cases hr : c.Balanced r
    · obtain ⟨taken, halign, hrun⟩ := run_balanced i rs hr
      have hsplit : c.RunAligned i (r :: rs) [] ↔ c.RunAligned (i + 1) rs [] := by
        rw [RunAligned, RunAligned, hrun, List.forall_mem_cons]
        exact and_congr_left fun _ => and_iff_right halign
      rw [hsplit, ih, List.forall_mem_cons, and_iff_right hr]
    · exact ⟨fun hrun => absurd hrun (not_runAligned_of_not_balanced hr),
        fun hall => absurd (hall r List.mem_cons_self) hr⟩

end Client

end RequestReply
end LsmFork
