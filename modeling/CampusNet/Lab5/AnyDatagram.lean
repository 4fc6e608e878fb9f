import CampusNet.Lab5.Server

/-!
# Arbitrary datagrams at the licence server

Every request is answered with a non-empty text, and a FAIL answer leaves the table as it was,
with three exceptions: the bare words `HELO`, `GBYE` and `VALID` pass the test on their first
characters and are shorter than the offset given to `substr`, which throws.

* `handle_eq_none_iff` — the requests on which `main` throws.
* `handle_answer` — the answers to all others.
* `datagram_answered_iff` — both together, for any state and any datagram.
-/

namespace CampusNet.Licence

open Runs

/-- One non-empty response, and no change when it is a FAIL. -/
def Answered (s : Server) (d : Text) : Prop :=
  ∃ r s', serve s d = some (some r, s') ∧ r ≠ [] ∧ (r.take 4 = "FAIL".toList → s' = s)

/-- The requests that end the server: a command word and nothing after it. -/
def bareWords : List Text := ["HELO".toList, "GBYE".toList, "VALID".toList]

/-! ## Where `substr` throws -/

theorem substrFrom_eq_none {s : Text} {pos : Nat} : substrFrom s pos = none ↔ s.length < pos := by
  unfold substrFrom
  split <;> simp <;> omega

/-- A text that starts with `word` is shorter than the position after it exactly when it is
`word`. -/
theorem length_lt_succ_iff {s word : Text} (h : s.take word.length = word) :
    s.length < word.length + 1 ↔ s = word := by
  constructor
  · intro hlt
    rw [← h, List.take_of_length_le (by omega)]
  · rintro rfl
    exact Nat.lt_succ_self _

/-- After the dot there is always a substring to take. -/
theorem afterFind_isSome {α : Type} {s : Text} {c : Char} {pos : Nat} (h : find s c = some pos)
    {f : Text → Option α} (hf : ∀ rest, ∃ r, f rest = some r) :
    ∃ r, (substrFrom s (pos + 1)).bind f = some r := by
  obtain ⟨hlt, -⟩ := List.findIdx?_eq_some_iff_getElem.mp h
  have hsub : substrFrom s (pos + 1) = some (s.drop (pos + 1)) := if_pos hlt
  rw [hsub, Option.bind_some]
  exact hf _

theorem helo_isSome (s : Server) (pid : Int) : ∃ r, helo s pid = some r := by
  rcases helo_cases s pid with ⟨-, he⟩ | ⟨-, t, -, -, -, he⟩
  · exact ⟨_, he⟩
  · exact ⟨_, he⟩

theorem gbye_isSome (s : Server) (ticketStr : Text) : ∃ r, gbye s ticketStr = some r := by
  unfold gbye
  split
  · exact ⟨_, rfl⟩
  · rename_i dotPos hdot
    refine afterFind_isSome hdot fun rest => ?_
    simp only
    split <;> exact ⟨_, rfl⟩

theorem valid_isSome (s : Server) (ticketStr : Text) : ∃ r, valid s ticketStr = some r := by
  unfold valid
  split
  · exact ⟨_, rfl⟩
  · rename_i dotPos hdot
    refine afterFind_isSome hdot fun rest => ?_
    simp only
    split <;> exact ⟨_, rfl⟩

/-- A branch that takes the rest of the request throws exactly on the bare word. -/
theorem branch_eq_none_iff {β : Type} {request word : Text} {f : Text → Option β}
    (hword : request.take word.length = word) (hf : ∀ x, ∃ r, f x = some r) :
    (substrFrom request (word.length + 1)).bind f = none ↔ request = word := by
  rw [← length_lt_succ_iff hword, ← substrFrom_eq_none]
  cases hsub : substrFrom request (word.length + 1) with
  | none => simp
  | some rest =>
    obtain ⟨r, hr⟩ := hf rest
    simp [hr]

/-- **The requests on which `main` throws.** -/
theorem handle_eq_none_iff {s : Server} {request : Text} :
    handle s request = none ↔ request ∈ bareWords := by
  simp only [bareWords, List.mem_cons, List.not_mem_nil, or_false]
  unfold handle
  split
  · rename_i hhelo
    have hword : request.take "HELO".toList.length = "HELO".toList := hhelo
    refine (branch_eq_none_iff hword fun x => helo_isSome s (atoi x)).trans ⟨Or.inl, ?_⟩
    rintro (h | rfl | rfl)
    · exact h
    · exact absurd hhelo (by decide)
    · exact absurd hhelo (by decide)
  split
  · rename_i hhelo hgbye
    have hword : request.take "GBYE".toList.length = "GBYE".toList := hgbye
    refine (branch_eq_none_iff hword (gbye_isSome s)).trans ⟨fun h => Or.inr (Or.inl h), ?_⟩
    rintro (rfl | h | rfl)
    · exact absurd rfl hhelo
    · exact h
    · exact absurd hgbye (by decide)
  split
  · rename_i hhelo hgbye hvalid
    have hword : request.take "VALID".toList.length = "VALID".toList := hvalid
    refine (branch_eq_none_iff hword (valid_isSome s)).trans ⟨fun h => Or.inr (Or.inr h), ?_⟩
    rintro (rfl | rfl | h)
    · exact absurd rfl hhelo
    · exact absurd rfl hgbye
    · exact h
  · rename_i hhelo hgbye hvalid
    refine iff_of_false nofun ?_
    rintro (rfl | rfl | rfl)
    · exact hhelo rfl
    · exact hgbye rfl
    · exact hvalid rfl

/-! ## The answers -/

/-- The answer is a text, and a FAIL leaves the table as it was. -/
def FailKeeps (s : Server) (r : Text) (s' : Server) : Prop :=
  r ≠ [] ∧ (r.take 4 = "FAIL".toList → s' = s)

theorem tickText_take_ne_fail (pid t : Int) : (tickText pid t).take 4 ≠ "FAIL".toList := by
  show "TICK".toList ≠ _
  decide

theorem tickText_ne_nil (pid t : Int) : tickText pid t ≠ [] := nofun

theorem helo_failKeeps {s s' : Server} {pid : Int} {r : Text} (h : helo s pid = some (r, s')) :
    FailKeeps s r s' := by
  rcases helo_cases s pid with ⟨-, he⟩ | ⟨-, t, -, -, -, he⟩
  · rw [he] at h
    cases h
    exact ⟨by decide, fun _ => rfl⟩
  · rw [he] at h
    cases h
    exact ⟨tickText_ne_nil pid t, fun hfail => absurd hfail (tickText_take_ne_fail pid t)⟩

theorem gbye_failKeeps {s s' : Server} {ticketStr r : Text}
    (h : gbye s ticketStr = some (r, s')) : FailKeeps s r s' := by
  rcases gbye_cases h with ⟨rfl, rfl⟩ | ⟨t, -, rfl, rfl⟩
  · exact ⟨by decide, fun _ => rfl⟩
  · exact ⟨by decide, fun hfail => absurd hfail (by decide)⟩

theorem valid_failKeeps {s s' : Server} {ticketStr r : Text}
    (h : valid s ticketStr = some (r, s')) : FailKeeps s r s' := by
  obtain ⟨rfl, rfl | rfl⟩ := valid_cases h
  · exact ⟨by decide, fun _ => rfl⟩
  · exact ⟨by decide, fun _ => rfl⟩

theorem handle_answer {s s' : Server} {request r : Text} (h : handle s request = some (r, s')) :
    FailKeeps s r s' := by
  unfold handle at h
  split at h
  · obtain ⟨rest, -, h⟩ := Option.bind_eq_some_iff.mp h
    exact helo_failKeeps h
  split at h
  · obtain ⟨rest, -, h⟩ := Option.bind_eq_some_iff.mp h
    exact gbye_failKeeps h
  split at h
  · obtain ⟨rest, -, h⟩ := Option.bind_eq_some_iff.mp h
    exact valid_failKeeps h
  · cases h
    exact ⟨by decide, fun _ => rfl⟩

/-- **Any datagram** of 1 to 511 bytes, in any state, is answered as it should be exactly when its
text is not one of the bare command words. -/
theorem datagram_answered_iff (s : Server) {d : Text} (h0 : 0 < d.length) (hl : d.length ≤ 511) :
    Answered s d ↔ cString d ∉ bareWords := by
  have hserve : serve s d = (handle s (cString d)).map fun r => (some r.1, r.2) := by
    rw [serve, if_neg (by omega)]
  rw [← handle_eq_none_iff (s := s)]
  unfold Answered
  rw [hserve]
  constructor
  · rintro ⟨r, s', h, -⟩ hnone
    rw [hnone] at h
    cases h
  · intro hsome
    obtain ⟨⟨r, s'⟩, hp⟩ := Option.ne_none_iff_exists'.mp hsome
    obtain ⟨hne, hkeeps⟩ := handle_answer hp
    exact ⟨r, s', by rw [hp]; rfl, hne, hkeeps⟩

/-- Six bytes with no meaning are answered. -/
theorem datagram_answered_iff_other : Answered Server.start "\x00HELO?".toList :=
  (datagram_answered_iff Server.start (by decide) (by decide)).mpr (by decide)

/-- The four bytes `HELO`, sent to a server that has just started, end it. -/
theorem bareHelo_breaks_server : Reachable serverLoop Server.start ∧
    serve Server.start "HELO".toList = none ∧ ¬ Answered Server.start "HELO".toList := by
  have hthrows : serve Server.start "HELO".toList = none := by decide
  refine ⟨.init, hthrows, ?_⟩
  rintro ⟨r, s', h, -⟩
  rw [hthrows] at h
  cases h

end CampusNet.Licence
