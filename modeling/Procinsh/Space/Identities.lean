import Procinsh.Space.Qualify

/-!
# Keys tell identities apart

The key of a process is the text of its identity: the host, if there is one, the PID and the start
time.  The numbers have neither of the separators, so that the last of each parts the key.
-/

namespace Procinsh.Space

/-- A separator that does not occur behind it splits a list in one way. -/
theorem append_cons_inj_of_notMem_right {α : Type} {c : α} {xs ys l m : List α} (hl : c ∉ l)
    (hm : c ∉ m) (h : xs ++ c :: l = ys ++ c :: m) : xs = ys ∧ l = m := by
  have hreverse := congrArg List.reverse h
  rw [List.reverse_append, List.reverse_append, List.reverse_cons, List.reverse_cons,
    List.append_assoc, List.append_assoc, List.singleton_append, List.singleton_append] at hreverse
  obtain ⟨hlm, hxy⟩ := append_cons_inj_of_notMem (fun hc => hl (List.mem_reverse.mp hc))
    (fun hc => hm (List.mem_reverse.mp hc)) hreverse
  exact ⟨List.reverse_inj.mp hxy, List.reverse_inj.mp hlm⟩

theorem notMem_toString_int {c : Char} (hdigit : c.isDigit = false) (hminus : c ≠ '-') (n : ℤ) :
    c ∉ (toString n).toList := by
  intro hc
  rcases Json.mem_toString_int hc with h | h
  · rw [hdigit] at h
    cases h
  · exact hminus h

/-- What is in front of the PID in a key. -/
def hostPrefix (id : ProcessId) : List Char :=
  match id.host with
  | none => []
  | some host => host.toList ++ ['@']

theorem toList_key (id : ProcessId) : (key id).toList =
    (hostPrefix id ++ (toString id.pid).toList) ++ ':' :: (toString id.startTimeTicks).toList := by
  unfold key hostPrefix
  cases id.host with
  | none => simp
  | some host => simp

/-- The key of a process determines its identity. -/
theorem key_inj {a b : ProcessId} : key a = key b ↔ a = b := by
  constructor
  · intro h
    have hlists := congrArg String.toList h
    rw [toList_key, toList_key] at hlists
    have hcolon (n : ℤ) : ':' ∉ (toString n).toList := notMem_toString_int (by decide) (by decide) n
    have hat (n : ℤ) : '@' ∉ (toString n).toList := notMem_toString_int (by decide) (by decide) n
    obtain ⟨hfront, hticks⟩ := append_cons_inj_of_notMem_right (hcolon _) (hcolon _) hlists
    have hticks := Json.toString_int_inj.mp (String.toList_inj.mp hticks)
    obtain ⟨pid, ticks, host⟩ := a
    obtain ⟨pid', ticks', host'⟩ := b
    obtain rfl : ticks = ticks' := hticks
    cases host with
    | none =>
      cases host' with
      | none =>
        obtain rfl := Json.toString_int_inj.mp (String.toList_inj.mp hfront)
        rfl
      | some host' =>
        refine absurd ?_ (hat pid)
        change (toString pid).toList = (host'.toList ++ ['@']) ++ _ at hfront
        rw [hfront]
        simp
    | some host =>
      cases host' with
      | none =>
        refine absurd ?_ (hat pid')
        change (host.toList ++ ['@']) ++ _ = (toString pid').toList at hfront
        rw [← hfront]
        simp
      | some host' =>
        change (host.toList ++ ['@']) ++ _ = (host'.toList ++ ['@']) ++ _ at hfront
        rw [List.append_assoc, List.append_assoc] at hfront
        obtain ⟨hhost, hpid⟩ := append_cons_inj_of_notMem_right (hat _) (hat _) hfront
        obtain rfl := Json.toString_int_inj.mp (String.toList_inj.mp hpid)
        obtain rfl := String.toList_inj.mp hhost
        rfl
  · rintro rfl
    rfl

end Procinsh.Space
