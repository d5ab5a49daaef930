import Mathlib.Logic.Function.Basic
import Parley.Proofs.Connection.Gate

/-!
# Parley.Proofs.Handshake — the one answer to a challenge

Swapping the halves of every byte moves each bit to its twin in the other half
(`getLsbD_swapNibbles`), so it undoes itself and goes through the masks; with that `scramble` is undone
by `unscramble`, and a challenge has one answer, which answers no other challenge.

The answer to `x` is `x` itself only if swapping the halves of every byte leaves alone the two masks
taken together.  It does not, so a peer that sends the challenge back does not get in
(`one_answer`).
-/

namespace Parley

namespace Scramble

/-! ### Bit by bit -/

/-- The place that place `i` changes with, in the other half of its byte. -/
def twin (i : Nat) : Nat := if i % 8 < 4 then i + 4 else i - 4

theorem twin_lt {i : Nat} (hi : i < 64) : twin i < 64 := by
  unfold twin
  split <;> omega

theorem twin_twin (i : Nat) : twin (twin i) = i := by
  unfold twin
  by_cases hlow : i % 8 < 4
  · rw [if_pos hlow, if_neg (by omega)]
    omega
  · rw [if_neg hlow, if_pos (by omega)]
    omega

theorem getLsbD_upper :
    ∀ i : Fin 64, (0xF0F0F0F0F0F0F0F0#64).getLsbD i = decide (4 ≤ i.val % 8) := by
  decide

theorem getLsbD_lower :
    ∀ i : Fin 64, (0x0F0F0F0F0F0F0F0F#64).getLsbD i = decide (i.val % 8 < 4) := by
  decide

/-- Every bit goes to its twin's place. -/
theorem getLsbD_swapNibbles (x : UInt64) {i : Nat} (hi : i < 64) :
    (swapNibbles x).toBitVec.getLsbD i = x.toBitVec.getLsbD (twin i) := by
  have hparts : (swapNibbles x).toBitVec.getLsbD i =
      ((x.toBitVec.getLsbD (4 + i) && (0xF0F0F0F0F0F0F0F0#64).getLsbD (4 + i)) ||
        (decide (i < 64) && !decide (i < 4) &&
          (x.toBitVec.getLsbD (i - 4) && (0x0F0F0F0F0F0F0F0F#64).getLsbD (i - 4)))) := by
    simp [swapNibbles]
  rw [hparts, getLsbD_lower ⟨i - 4, by omega⟩]
  unfold twin
  by_cases hlow : i % 8 < 4
  · -- the bit four places below, if there is one, is in an upper half and is masked
    have habove : 4 ≤ (4 + i) % 8 := by omega
    have hbelow : i < 4 ∨ ¬(i - 4) % 8 < 4 := by omega
    rw [getLsbD_upper ⟨4 + i, by omega⟩, if_pos hlow, Nat.add_comm i 4]
    rcases hbelow with hbelow | hbelow <;> simp [habove, hbelow]
  · -- the bit four places above is in a lower half and is masked, or there is none
    have hmasked : (0xF0F0F0F0F0F0F0F0#64).getLsbD (4 + i) = false := by
      by_cases hlt : 4 + i < 64
      · have hlower : ¬4 ≤ (4 + i) % 8 := by omega
        rw [getLsbD_upper ⟨4 + i, hlt⟩]
        exact decide_eq_false hlower
      · exact BitVec.getLsbD_of_ge _ _ (by omega)
    have hbelow : (i - 4) % 8 < 4 := by omega
    have hge : ¬i < 4 := by omega
    rw [if_neg hlow, hmasked]
    simp [hbelow, hge, hi]

theorem ext_bits {x y : UInt64}
    (h : ∀ i < 64, x.toBitVec.getLsbD i = y.toBitVec.getLsbD i) : x = y :=
  UInt64.toBitVec_inj.mp (BitVec.eq_of_getLsbD_eq h)

theorem swapNibbles_swapNibbles (x : UInt64) : swapNibbles (swapNibbles x) = x := by
  refine ext_bits fun i hi => ?_
  rw [getLsbD_swapNibbles _ hi, getLsbD_swapNibbles x (twin_lt hi), twin_twin]

theorem swapNibbles_xor (x y : UInt64) :
    swapNibbles (x ^^^ y) = swapNibbles x ^^^ swapNibbles y := by
  refine ext_bits fun i hi => ?_
  rw [getLsbD_swapNibbles _ hi]
  simp only [UInt64.toBitVec_xor, BitVec.getLsbD_xor, getLsbD_swapNibbles _ hi]

theorem xor_xor_cancel (x k : UInt64) : x ^^^ k ^^^ k = x := by
  rw [UInt64.xor_assoc, UInt64.xor_self, UInt64.xor_zero]

/-- The two masks taken together have a byte with different halves. -/
theorem swapNibbles_keys_ne : swapNibbles (inKey ^^^ outKey) ≠ inKey ^^^ outKey := by decide

end Scramble

open Scramble

/-! ### Undoing the scramble -/

/-- The challenge that a word is the answer to: the masks in the other order, the halves of every byte
swapped between them. -/
def unscramble (y : UInt64) : UInt64 := swapNibbles (y ^^^ outKey) ^^^ inKey

theorem unscramble_scramble (x : UInt64) : unscramble (scramble x) = x := by
  unfold unscramble scramble
  rw [xor_xor_cancel, swapNibbles_swapNibbles, xor_xor_cancel]

theorem scramble_unscramble (y : UInt64) : scramble (unscramble y) = y := by
  unfold unscramble scramble
  rw [xor_xor_cancel, swapNibbles_swapNibbles, xor_xor_cancel]

theorem scramble_injective : Function.Injective scramble :=
  Function.LeftInverse.injective unscramble_scramble

/-- **No word is its own scramble.**  A word and its swap, taken together, are left alone by swapping
the halves of every byte; if `x` were its own scramble, that would be the two masks. -/
theorem scramble_ne_self (x : UInt64) : scramble x ≠ x := by
  intro hself
  have hswap : swapNibbles (x ^^^ inKey) = x ^^^ outKey :=
    calc swapNibbles (x ^^^ inKey)
        = scramble x ^^^ outKey := (xor_xor_cancel _ _).symm
      _ = x ^^^ outKey := by rw [hself]
  have hkeys : inKey ^^^ outKey = (x ^^^ inKey) ^^^ swapNibbles (x ^^^ inKey) :=
    calc inKey ^^^ outKey
        = inKey ^^^ (x ^^^ (x ^^^ outKey)) := by
          rw [← UInt64.xor_assoc x x, UInt64.xor_self, UInt64.zero_xor]
      _ = (x ^^^ inKey) ^^^ swapNibbles (x ^^^ inKey) := by
          rw [hswap, ← UInt64.xor_assoc, UInt64.xor_comm inKey x]
  refine swapNibbles_keys_ne ?_
  rw [hkeys, swapNibbles_xor, swapNibbles_swapNibbles, UInt64.xor_comm]

/-! ### Challenges -/

namespace Challenge

theorem accepts_ofWord_iff (x answer : UInt64) :
    (ofWord x).accepts answer = true ↔ answer = scramble x := beq_iff_eq

theorem check_ofWord_of_ne {x answer : UInt64} (h : answer ≠ scramble x) :
    (ofWord x).check answer = .error (.validationFailed (scramble x) answer) :=
  if_neg fun haccepts => h ((accepts_ofWord_iff x answer).mp haccepts)

end Challenge

theorem Bytes.ofWord_injective : Function.Injective ofWord :=
  Function.LeftInverse.injective toWord_ofWord

open Connection

/-- What is known of a challenge that is put to the other end of a connection. -/
structure Guarding (κ : Type) [Kind κ] (x : UInt64) : Prop where
  /-- Its scramble is accepted and nothing else, -/
  accepts_iff : ∀ answer, (Challenge.ofWord x).accepts answer = true ↔ answer = scramble x
  /-- which no other challenge accepts. -/
  apart : ∀ y answer, (Challenge.ofWord x).accepts answer = true →
    (Challenge.ofWord y).accepts answer = true → x = y
  /-- The challenge is not accepted as an answer to itself. -/
  echo_ne : scramble x ≠ x
  check_echo : (Challenge.ofWord x).check x = .error (.validationFailed (scramble x) x)
  /-- A connection to which the challenge comes back does not open, and tells nothing, -/
  shut : ∀ (limit : Nat) (as : List (Action κ)) (o : Outcome κ),
    (accepted limit (.ofWord x)).run as = some o →
      (arrivals as).take handshakeSize = Bytes.ofWord x →
        o.1.phase ≠ .opened ∧ readerEvents o.2 = []
  /-- and its main task, as it must, comes to rest with the connection closed and one handshake failed,
  if the handler approved of it and nobody disconnects it first. -/
  refused : ∀ (limit : Nat) (as : List (Action κ)) (o : Outcome κ),
    (accepted limit (.ofWord x)).run as = some o →
      (arrivals as).take handshakeSize = Bytes.ofWord x → .abort ∉ as →
        (∃ id, .approve id ∈ as) →
          ClosesOnlyBy (fun a => a.isDisconnect = false) (accepted limit (.ofWord x)) as →
            ComesToRest o.1 ∧ (Resting o.1 → o.1.phase = .closed ∧ failures o.2 = 1)

/-- **A challenge has exactly one answer, which is not the challenge.**  `scramble` is a bijection of
the 64-bit words, undone by `unscramble`; so of all words a challenge accepts one, two challenges never
accept the same, and since no word is its own scramble, a peer that sends its challenge back is refused
whatever else happens. -/
theorem one_answer (κ : Type) [Kind κ] :
    Function.Bijective scramble ∧ Function.LeftInverse unscramble scramble ∧
      Function.RightInverse unscramble scramble ∧ ∀ x, Guarding κ x := by
  refine ⟨⟨scramble_injective, fun y => ⟨_, scramble_unscramble y⟩⟩, unscramble_scramble,
    scramble_unscramble, fun x => ?_⟩
  have hecho : Bytes.ofWord x ≠ Bytes.ofWord (scramble x) := fun heq =>
    scramble_ne_self x (Bytes.ofWord_injective heq).symm
  refine
    { accepts_iff := Challenge.accepts_ofWord_iff x
      apart := fun y answer hx hy => ?apart
      echo_ne := scramble_ne_self x
      check_echo := Challenge.check_ofWord_of_ne (scramble_ne_self x).symm
      shut := fun limit as o hrun hback => ?shut
      refused := fun limit as o hrun hback habort happroved hlocal => ⟨?rests, fun hrest => ?ends⟩ }
  case apart =>
    rw [Challenge.accepts_ofWord_iff] at hx hy
    exact scramble_injective (hx.symm.trans hy)
  case shut =>
    obtain ⟨hphase, hnone, -⟩ := shut_run hrun (by rw [hback]; exact hecho)
    exact ⟨hphase, hnone⟩
  case rests =>
    exact ((sound_accepted limit (.ofWord x)).run hrun).comesToRest
      ((asks_accepted limit (.ofWord x)).run hrun)
  case ends =>
    have hlong : handshakeSize ≤ (arrivals as).length := by
      have hlength := congrArg List.length hback
      have hsize : handshakeSize = 8 := rfl
      rw [List.length_take, Bytes.length_ofWord] at hlength
      omega
    exact refused_run hrun habort happroved hlocal (by rw [hback]; exact hecho) (.inl hlong) hrest

/-- The challenge zero is sent back, with more bytes behind it; the scramble of zero would have
been accepted. -/
theorem one_answer_echo :
    let as : List (Action GameTag) :=
      [.approve 10000, .turn .ready, .turn (.wrote 8), .arrive (Bytes.ofWord 0 ++ [1, 0, 0, 0]),
        .turn .ready]
    ∃ o, (accepted 64 (.ofWord 0)).run as = some o ∧ o.1.phase = .closed ∧ failures o.2 = 1 ∧
      (Challenge.ofWord 0).accepts 0x2D0411301ED9FA97 = true := by
  intro as
  have hruns : ((accepted 64 (.ofWord 0)).run as).any (·.1.stage == .finished) = true := by
    decide +kernel
  obtain ⟨o, hrun, hstage⟩ := (Option.any_eq_true _ _).mp hruns
  obtain ⟨-, -, -, hguard⟩ := one_answer GameTag
  have hlocal : ClosesOnlyBy (fun a => a.isDisconnect = false) (accepted 64 (.ofWord 0)) as :=
    .of_forall (by decide)
  have hrest : Resting o.1 := fun t => by
    unfold turn
    rw [beq_iff_eq.mp hstage]
  obtain ⟨-, hends⟩ := (hguard 0).refused 64 as o hrun (by decide +kernel) (by decide)
    ⟨10000, by decide⟩ hlocal
  obtain ⟨hclosed, hfailed⟩ := hends hrest
  exact ⟨o, hrun, hclosed, hfailed, ((hguard 0).accepts_iff _).mpr (by decide)⟩

end Parley
