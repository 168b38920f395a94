import VecadNiosv.FramePicture

/-!
# The opening position

A frame of project 6 shows twelve discs of each player, on the dark squares of the three rows next
to the player's edge. The two players are one family: a colour, and the squares in which discs of
that colour start. What a frame shows of a player follows from the pixels that carry the colour.
-/

namespace VecadNiosv

open Finset Picture

instance (r c : ℕ) : Decidable (StartsA r c) := inferInstanceAs (Decidable (_ ∧ _))

instance (r c : ℕ) : Decidable (StartsB r c) := inferInstanceAs (Decidable (_ ∧ _))

/-- The colour that the project 6 renderer gives to the state of the raster. -/
def Project6.pixel (s : VgaTiming) : Rgb :=
  Project6.checkerboardRenderer s.ports.hCount s.ports.vCount s.ports.activeVideo

namespace VgaTiming

def xAt (s : VgaTiming) (t : ℕ) : ℕ := (s.afterTicks t).ports.hCount.toNat

def yAt (s : VgaTiming) (t : ℕ) : ℕ := (s.afterTicks t).ports.vCount.toNat

/-- Tick `t` of the frame falls in the square `(r, c)` and carries the colour. -/
def Carries (s : VgaTiming) (colour : Rgb) (r c t : ℕ) : Prop :=
  InSquare r c (s.xAt t) (s.yAt t) ∧ Project6.pixel (s.afterTicks t) = colour

instance (s : VgaTiming) (colour : Rgb) (r c t : ℕ) : Decidable (s.Carries colour r c t) :=
  inferInstanceAs (Decidable (_ ∧ _))

end VgaTiming

/-- What a frame shows of one player, whose discs start in the squares `Starts`. -/
structure ShowsPlayer (s : VgaTiming) (colour other : Rgb) (Starts : ℕ → ℕ → Prop) : Prop where
  disc : ∀ r c, r < 8 → c < 8 → Starts r c → ∀ t < 420000, InSquare r c (s.xAt t) (s.yAt t) →
    (Project6.pixel (s.afterTicks t) = colour ↔ InDisc r c (s.xAt t) (s.yAt t)) ∧
      Project6.pixel (s.afterTicks t) ≠ other
  discCount : ∀ r c, r < 8 → c < 8 → Starts r c → #{t ∈ range 420000 | s.Carries colour r c t} = 1009
  discs : #{p ∈ range 8 ×ˢ range 8 | ∃ t ∈ range 420000, s.Carries colour p.1 p.2 t} = 12
  count : #{t ∈ range 420000 | Project6.pixel (s.afterTicks t) = colour} = 12108

/-- The opening position in the frame that follows `s`. -/
structure ShowsOpening (s : VgaTiming) : Prop where
  playerA : ShowsPlayer s .red .blue StartsA
  playerB : ShowsPlayer s .blue .red StartsB
  empty : ∀ r c, r < 8 → c < 8 → ¬StartsA r c → ¬StartsB r c → ∀ t < 420000,
    ¬s.Carries .red r c t ∧ ¬s.Carries .blue r c t
  exclusive : ∀ t < 420000, let ports := (s.afterTicks t).ports
    ¬(Project6.drawPlayerA ports.hCount ports.vCount = true ∧
      Project6.drawPlayerB ports.hCount ports.vCount = true)
  onBoard : ∀ t < 420000, Project6.pixel (s.afterTicks t) = .red ∨
    Project6.pixel (s.afterTicks t) = .blue → OnBoard (s.xAt t) (s.yAt t) ∧
      (rowOf (s.yAt t) + colOf (s.xAt t)) % 2 = 1 ∧ rowOf (s.yAt t) ≠ 3 ∧ rowOf (s.yAt t) ≠ 4
  symmetric : ∀ r c, r < 8 → c < 8 → ((∃ t ∈ range 420000, s.Carries .red r c t) ↔
    ∃ t ∈ range 420000, s.Carries .blue (7 - r) (7 - c) t)

lemma FrameStart.xAt {s : VgaTiming} (hs : FrameStart s) (t : ℕ) : s.xAt t = t % 800 :=
  (hs.afterTicks_at t).h

lemma FrameStart.yAt {s : VgaTiming} (hs : FrameStart s) (t : ℕ) : s.yAt t = t / 800 % 525 :=
  (hs.afterTicks_at t).v

/-- The ticks of the frame that carry the colour are those of the discs of these squares. -/
def DrawsDiscs (s : VgaTiming) (colour : Rgb) (Starts : ℕ → ℕ → Prop) : Prop :=
  ∀ t, Project6.pixel (s.afterTicks t) = colour ↔
    ∃ r c, (r < 8 ∧ c < 8) ∧ Starts r c ∧ InDisc r c (s.xAt t) (s.yAt t)

lemma InSquare.unique {r c r' c' x y : ℕ} (h : InSquare r c x y) (h' : InSquare r' c' x y) :
    r = r' ∧ c = c' := by
  unfold InSquare at h h'
  omega

namespace DrawsDiscs

variable {s : VgaTiming} {colour : Rgb} {Starts : ℕ → ℕ → Prop}
  (hd : DrawsDiscs s colour Starts) {r c t : ℕ}
include hd

lemma eq_iff_of_inSquare (hr : r < 8) (hc : c < 8) (hin : InSquare r c (s.xAt t) (s.yAt t)) :
    Project6.pixel (s.afterTicks t) = colour ↔ Starts r c ∧ InDisc r c (s.xAt t) (s.yAt t) := by
  rw [hd t]
  constructor
  · rintro ⟨r', c', -, hstarts, hdisc⟩
    obtain ⟨rfl, rfl⟩ := InSquare.unique hin hdisc.inSquare
    exact ⟨hstarts, hdisc⟩
  · rintro ⟨hstarts, hdisc⟩
    exact ⟨r, c, ⟨hr, hc⟩, hstarts, hdisc⟩

lemma carries_iff (hr : r < 8) (hc : c < 8) :
    s.Carries colour r c t ↔ Starts r c ∧ InDisc r c (s.xAt t) (s.yAt t) := by
  constructor
  · rintro ⟨hin, hcolour⟩
    exact (hd.eq_iff_of_inSquare hr hc hin).mp hcolour
  · rintro ⟨hstarts, hdisc⟩
    exact ⟨hdisc.inSquare, (hd.eq_iff_of_inSquare hr hc hdisc.inSquare).mpr ⟨hstarts, hdisc⟩⟩

variable (hs : FrameStart s)
include hs

lemma carrying_ticks_eq (hr : r < 8) (hc : c < 8) (hstarts : Starts r c) :
    {t ∈ range 420000 | s.Carries colour r c t} = ticksWhere (InDisc r c) := by
  ext t
  rw [mem_filter, mem_range, hd.carries_iff hr hc, and_iff_right hstarts, mem_ticksWhere, hs.xAt,
    hs.yAt]

lemma card_carrying_ticks (hr : r < 8) (hc : c < 8) (hstarts : Starts r c) :
    #{t ∈ range 420000 | s.Carries colour r c t} = 1009 := by
  rw [hd.carrying_ticks_eq hs hr hc hstarts]
  exact card_disc_ticks hr hc

lemma exists_carries_iff (hr : r < 8) (hc : c < 8) :
    (∃ t ∈ range 420000, s.Carries colour r c t) ↔ Starts r c := by
  constructor
  · rintro ⟨t, -, hcarries⟩
    exact ((hd.carries_iff hr hc).mp hcarries).1
  · intro hstarts
    have hcard := hd.card_carrying_ticks hs hr hc hstarts
    have hnonempty : {t ∈ range 420000 | s.Carries colour r c t}.Nonempty := by
      rw [← card_pos, hcard]
      omega
    obtain ⟨t, ht⟩ := hnonempty
    exact ⟨t, (mem_filter.mp ht).1, (mem_filter.mp ht).2⟩

variable [∀ r c, Decidable (Starts r c)]

lemma colour_ticks_eq : {t ∈ range 420000 | Project6.pixel (s.afterTicks t) = colour} =
    {p ∈ range 8 ×ˢ range 8 | Starts p.1 p.2}.biUnion fun p => ticksWhere (InDisc p.1 p.2) := by
  ext t
  simp only [mem_filter, mem_biUnion, mem_product, mem_range, mem_ticksWhere, hd t, hs.xAt, hs.yAt,
    Prod.exists]
  constructor
  · rintro ⟨ht, r, c, hboard, hstarts, hdisc⟩
    exact ⟨r, c, ⟨hboard, hstarts⟩, ht, hdisc⟩
  · rintro ⟨r, c, ⟨hboard, hstarts⟩, ht, hdisc⟩
    exact ⟨ht, r, c, hboard, hstarts, hdisc⟩

/-- The discs of different squares are disjoint, so the ticks of a colour are counted square by
square. -/
lemma card_colour_ticks : #{t ∈ range 420000 | Project6.pixel (s.afterTicks t) = colour} =
    #{p ∈ range 8 ×ˢ range 8 | Starts p.1 p.2} * 1009 := by
  rw [hd.colour_ticks_eq hs, card_biUnion]
  · apply sum_const_nat
    intro p hp
    rw [mem_filter, mem_product, mem_range, mem_range] at hp
    exact card_disc_ticks hp.1.1 hp.1.2
  · intro p _ q _ hne
    apply disjoint_disc_ticks
    rintro ⟨hr, hc⟩
    exact hne (Prod.ext hr hc)

lemma card_discs : #{p ∈ range 8 ×ˢ range 8 | ∃ t ∈ range 420000, s.Carries colour p.1 p.2 t} =
    #{p ∈ range 8 ×ˢ range 8 | Starts p.1 p.2} := by
  apply congrArg card
  apply filter_congr
  intro p hp
  rw [mem_product, mem_range, mem_range] at hp
  exact hd.exists_carries_iff hs hp.1 hp.2

lemma showsPlayer {other : Rgb} {Starts' : ℕ → ℕ → Prop} (hother : DrawsDiscs s other Starts')
    (hdisj : ∀ r c, Starts r c → ¬Starts' r c)
    (htwelve : #{p ∈ range 8 ×ˢ range 8 | Starts p.1 p.2} = 12) :
    ShowsPlayer s colour other Starts where
  disc r c hr hc hstarts t _ hin := by
    constructor
    · rw [hd.eq_iff_of_inSquare hr hc hin, and_iff_right hstarts]
    · intro heq
      exact hdisj r c hstarts ((hother.eq_iff_of_inSquare hr hc hin).mp heq).1
  discCount r c hr hc := hd.card_carrying_ticks hs hr hc
  discs := (hd.card_discs hs).trans htwelve
  count := by rw [hd.card_colour_ticks hs, htwelve]

end DrawsDiscs

lemma drawsDiscs_red (s : VgaTiming) : DrawsDiscs s .red StartsA := by
  intro t
  apply Project6.eq_red_iff.trans
  rw [Project6.drawPlayerA_iff]
  apply and_iff_right_of_imp
  rintro ⟨r, c, ⟨hr, hc⟩, -, hdisc⟩
  exact (Beam.activeVideo_iff _).mpr (onBoard_visible (hdisc.onBoard hr hc))

lemma drawsDiscs_blue (s : VgaTiming) : DrawsDiscs s .blue StartsB := by
  intro t
  apply Project6.eq_blue_iff.trans
  rw [Project6.drawPlayerB_iff]
  apply and_iff_right_of_imp
  rintro ⟨r, c, ⟨hr, hc⟩, -, hdisc⟩
  exact (Beam.activeVideo_iff _).mpr (onBoard_visible (hdisc.onBoard hr hc))

lemma startsA_not_startsB (r c : ℕ) (hA : StartsA r c) : ¬StartsB r c := by
  unfold StartsA at hA
  unfold StartsB
  omega

lemma startsA_iff_startsB_opposite {r c : ℕ} (hr : r < 8) (hc : c < 8) :
    StartsA r c ↔ StartsB (7 - r) (7 - c) := by
  unfold StartsA StartsB
  omega

/-- Discs lie on the dark squares of the board outside rows 3 and 4. -/
lemma DrawsDiscs.onBoard {s : VgaTiming} {colour : Rgb} {Starts : ℕ → ℕ → Prop}
    (hd : DrawsDiscs s colour Starts)
    (hsquare : ∀ r c, Starts r c → (r + c) % 2 = 1 ∧ r ≠ 3 ∧ r ≠ 4) {t : ℕ}
    (hcolour : Project6.pixel (s.afterTicks t) = colour) : OnBoard (s.xAt t) (s.yAt t) ∧
      (rowOf (s.yAt t) + colOf (s.xAt t)) % 2 = 1 ∧ rowOf (s.yAt t) ≠ 3 ∧ rowOf (s.yAt t) ≠ 4 := by
  obtain ⟨r, c, ⟨hr, hc⟩, hstarts, hdisc⟩ := (hd t).mp hcolour
  obtain ⟨hrow, hcol⟩ := hdisc.rowOf_colOf hr hc
  rw [hrow, hcol]
  exact ⟨hdisc.onBoard hr hc, hsquare r c hstarts⟩

/-- Every frame of project 6 shows the opening position: twelve whole discs of each player on the
dark squares of its three rows, and nothing else of a player's colour. -/
theorem opening_position (s : VgaTiming) (hs : FrameStart s) : ShowsOpening s where
  playerA := (drawsDiscs_red s).showsPlayer hs (drawsDiscs_blue s) startsA_not_startsB (by decide)
  playerB := (drawsDiscs_blue s).showsPlayer hs (drawsDiscs_red s)
    (fun r c hB hA => startsA_not_startsB r c hA hB) (by decide)
  empty r c hr hc hA hB t _ := by
    rw [(drawsDiscs_red s).carries_iff hr hc, (drawsDiscs_blue s).carries_iff hr hc]
    exact ⟨fun h => hA h.1, fun h => hB h.1⟩
  exclusive t _ := by
    intro ports
    rintro ⟨hA, hB⟩
    rw [Project6.not_drawPlayerA_and_B _ _ hA] at hB
    exact absurd hB (by decide)
  onBoard t _ := by
    rintro (hred | hblue)
    · apply (drawsDiscs_red s).onBoard _ hred
      rintro r c ⟨hdark, hrow⟩
      omega
    · apply (drawsDiscs_blue s).onBoard _ hblue
      rintro r c ⟨hdark, hrow⟩
      omega
  symmetric r c hr hc := by
    rw [(drawsDiscs_red s).exists_carries_iff hs hr hc,
      (drawsDiscs_blue s).exists_carries_iff hs (by omega) (by omega)]
    exact startsA_iff_startsB_opposite hr hc

theorem opening_position_after_reset : ShowsOpening ⟨true, false, Beam.zero⟩ :=
  opening_position _ ⟨rfl, rfl⟩

end VecadNiosv
