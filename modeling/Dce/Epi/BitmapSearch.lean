import Dce.Epi.FindFragsExact

open lib

namespace dce.episode.bitmap

variable {page page' : bitmapPage} {h fresh : allocationData} {logged : Bool} {start n b : ℕ}

/-- The fields of a handle that stay as `InitHandle` made them. -/
def allocationData.geometry (h : allocationData) : allocationData :=
  { h with length := 0, blocksFree := 0, fragsFree := 0, blocksFreeValid := false }

theorem allocationData.Formatted.of_geometry (hh : fresh.Formatted) (hsame : h.geometry = fresh.geometry) : h.Formatted := by
  have hfresh : fresh.geometry.Formatted := ⟨hh.log_le, hh.size, hh.eight, hh.bytes, hh.kinds, hh.search, hh.cross⟩
  rw [← hsame] at hfresh
  exact ⟨hfresh.log_le, hfresh.size, hfresh.eight, hfresh.bytes, hfresh.kinds, hfresh.search, hfresh.cross⟩

def startOf (hint : Option allocationHint) : ℕ := (hint.map allocationHint.start).getD 0

/-- Two pages that are the same but for what lies outside their arrays. -/
structure SameArrays (page page' : bitmapPage) (h : allocationData) : Prop where
  base : page'.baseOffset = page.baseOffset
  frags : page'.fragmentsPerBlock = page.fragmentsPerBlock
  bytes : ∀ i < h.loggedLength + h.bitsLength, page'.logged i = page.logged i

def BlocksFound (page : bitmapPage) (h : allocationData) (start : ℕ) (block : ℤ) : Prop :=
  (block = EPIX_ANODE_BLOCKEMPTY ∧ ∀ b, start ≤ b → b < h.blocksPerPage → ¬blockFree page h b) ∨
    ∃ b, BlockFound page h start block b

namespace SameArrays

variable (hs : SameArrays page page' h)
include hs

theorem fragFree_iff {k : ℕ} (hk : k < h.bitsLength * 8) : fragFree page' h k ↔ fragFree page h k := by
  rw [fragFree, fragFree, BitsArray, BitsArray, hs.bytes _ (by omega)]

theorem run_iff {k m : ℕ} (hend : k + m ≤ h.bitsLength * 8) :
    Run (fragFree page' h) k m ↔ Run (fragFree page h) k m :=
  forall₂_congr fun j _ => hs.fragFree_iff (by omega)

variable (hh : h.Formatted)

include hh

section

variable (hb : b < h.blocksPerPage)

include hb

theorem blockFree_iff : blockFree page' h b ↔ blockFree page h b := by
  refine hs.run_iff ?_
  have hmul := Nat.mul_le_mul_right h.fragmentsPerBlock (show b + 1 ≤ h.blocksPerPage from hb)
  rw [hh.bits]
  rwa [Nat.add_mul, Nat.one_mul] at hmul

theorem group_iff (first : ℕ) : GroupAt page' h start n b first ↔ GroupAt page h start n b first := by
  have hmul := Nat.mul_le_mul_right h.fragmentsPerBlock (show b + 1 ≤ h.blocksPerPage from hb)
  have hbits := hh.bits
  constructor
  · refine fun hg => ⟨hg.begins, hg.ends, hg.run.imp fun k _ hlt hopen => ⟨hopen.1, ?_⟩⟩
    have hends := hg.ends
    exact (hs.fragFree_iff (by omega)).mp hopen.2
  · refine fun hg => ⟨hg.begins, hg.ends, hg.run.imp fun k _ hlt hopen => ⟨hopen.1, ?_⟩⟩
    have hends := hg.ends
    exact (hs.fragFree_iff (by omega)).mpr hopen.2

theorem suits_iff : Suits page' h logged b ↔ Suits page h logged b := by
  have hbyte : b / 8 < h.loggedLength + h.bitsLength := by
    have height := hh.eight
    have hle : h.blocksPerPage / 8 ≤ h.bitsLength := by
      rw [hh.bytes]
      exact Nat.le_mul_of_pos_right _ hh.pos
    omega
  rw [Suits, Suits, hs.blockFree_iff hh hb, loggedBlock, loggedBlock, hs.bytes _ hbyte]

theorem qualifies_iff : Qualifies page' h logged start n b ↔ Qualifies page h logged start n b :=
  and_congr (hs.suits_iff hh hb) (exists_congr fun first => hs.group_iff hh hb first)

end

theorem fragsFound {result : ℤ × ℤ} (hfound : FragsFound page h logged start n result) :
    FragsFound page' h logged start n result := by
  rcases hfound with ⟨hnone, hall⟩ | ⟨b, first, hfound⟩
  · exact .inl ⟨hnone, fun b hb hq => hall b hb ((hs.qualifies_iff hh hb).mp hq)⟩
  · have hb := hfound.within
    refine .inr ⟨b, first, hfound.frag, hb, (hs.group_iff hh hb first).mpr hfound.group, ?_,
      (hs.suits_iff hh hb).mpr hfound.suits, ?_, ?_⟩
    · exact fun first' hlt hg => hfound.least first' hlt ((hs.group_iff hh hb first').mp hg)
    · exact fun b' hlt hq => hfound.earliest b' hlt ((hs.qualifies_iff hh (hlt.trans hb)).mp hq)
    · rw [hfound.whole]
      exact if_congr (hs.blockFree_iff hh hb).symm rfl rfl

theorem blocksFound {block : ℤ} (hfound : BlocksFound page h start block) : BlocksFound page' h start block := by
  rcases hfound with ⟨hempty, hall⟩ | ⟨b, hfound⟩
  · exact .inl ⟨hempty, fun b hle hb hfree => hall b hle hb ((hs.blockFree_iff hh hb).mp hfree)⟩
  · have hb := hfound.within
    refine .inr ⟨b, ?_, hfound.after, hb, (hs.blockFree_iff hh hb).mpr hfound.free, ?_⟩
    · rw [hs.base]
      exact hfound.address
    · exact fun b' hle hlt hfree => hfound.first b' hle hlt ((hs.blockFree_iff hh (hlt.trans hb)).mp hfree)

end SameArrays

theorem BlocksFound.unique {block block' : ℤ} (hfound : BlocksFound page h start block)
    (hfound' : BlocksFound page h start block') : block = block' := by
  rcases hfound with ⟨hempty, hall⟩ | ⟨b, hb⟩
  · rcases hfound' with ⟨hempty', _⟩ | ⟨b', hb'⟩
    · rw [hempty, hempty']
    · exact absurd hb'.free (hall b' hb'.after hb'.within)
  · rcases hfound' with ⟨_, hall'⟩ | ⟨b', hb'⟩
    · exact absurd hb.free (hall' b hb.after hb.within)
    · rcases Nat.lt_trichotomy b b' with hlt | heq | hgt
      · exact absurd hb.free (hb'.first b hb.after hlt)
      · rw [hb.address, hb'.address, heq]
      · exact absurd hb'.free (hb.first b' hb'.after hgt)

theorem FragFound.qualifies {result : ℤ × ℤ} {first : ℕ} (hfound : FragFound page h logged start n result b first) :
    Qualifies page h logged start n b := ⟨hfound.suits, first, hfound.group⟩

theorem FragsFound.unique {result result' : ℤ × ℤ} (hfound : FragsFound page h logged start n result)
    (hfound' : FragsFound page h logged start n result') : result = result' := by
  rcases hfound with ⟨hnone, hall⟩ | ⟨b, first, hb⟩
  · rcases hfound' with ⟨hnone', _⟩ | ⟨b', first', hb'⟩
    · rw [hnone, hnone']
    · exact absurd hb'.qualifies (hall b' hb'.within)
  · rcases hfound' with ⟨_, hall'⟩ | ⟨b', first', hb'⟩
    · exact absurd hb.qualifies (hall' b hb.within)
    · have hblock : b = b' := by
        rcases Nat.lt_trichotomy b b' with hlt | heq | hgt
        · exact absurd hb.qualifies (hb'.earliest b hlt)
        · exact heq
        · exact absurd hb'.qualifies (hb.earliest b' hgt)
      subst hblock
      have hfirst : first = first' := by
        rcases Nat.lt_trichotomy first first' with hlt | heq | hgt
        · exact absurd hb.group (hb'.least first hlt)
        · exact heq
        · exact absurd hb'.group (hb.least first' hgt)
      refine Prod.ext ?_ ?_
      · rw [hb.frag, hb'.frag, hfirst]
      · rw [hb.whole, hb'.whole]

/-- The searches of a page find what is first in its bits, and only the bytes of its arrays decide. -/
theorem search_exact {device : async_device} {info : Option epia_info} {firstPage : bitmapPage}
    (hinit : InitHandle device info firstPage = some fresh) (hsame : h.geometry = fresh.geometry)
    (hpage : BITMAP_PAGE_OK page h) :
    (∀ hint, (∀ place ∈ hint, place.start < h.blocksPerPage) →
      ∃ block, FindBlock page h hint = some block ∧ BlocksFound page h (startOf hint) block) ∧
    (∀ logged n hint, 1 ≤ n → n ≤ h.fragmentsPerBlock →
      ∃ result, FindFrags page h (kind logged) n hint = some result ∧ FragsFound page h logged (startOf hint) n result) ∧
    ∀ page', SameArrays page page' h →
      (∀ hint, (∀ place ∈ hint, place.start < h.blocksPerPage) → FindBlock page' h hint = FindBlock page h hint) ∧
      ∀ logged n hint, 1 ≤ n → n ≤ h.fragmentsPerBlock →
        FindFrags page' h (kind logged) n hint = FindFrags page h (kind logged) n hint := by
  have hh := (InitHandle_formatted hinit).of_geometry hsame
  have hfrags : page.fragmentsPerBlock = h.fragmentsPerBlock := hpage.2.2.2.1
  refine ⟨fun hint hhint => FindBlock_found hh hfrags hhint,
    fun logged n hint hpos hn => FindFrags_found hh hfrags logged hpos hn hint, fun page' hs => ⟨?_, ?_⟩⟩
  · intro hint hhint
    obtain ⟨block, hblock, hfound⟩ := FindBlock_found hh hfrags hhint
    obtain ⟨block', hblock', hfound'⟩ := FindBlock_found hh (hs.frags.trans hfrags) hhint
    rw [hblock, hblock', BlocksFound.unique (hs.blocksFound hh hfound) hfound']
  · intro logged n hint hpos hn
    obtain ⟨result, hresult, hfound⟩ := FindFrags_found hh hfrags logged hpos hn hint
    obtain ⟨result', hresult', hfound'⟩ := FindFrags_found hh (hs.frags.trans hfrags) logged hpos hn hint
    rw [hresult, hresult', (hs.fragsFound hh hfound).unique hfound']

def smallDevice : async_device := ⟨13, 10, 8192, rfl, by decide⟩

def smallPage : bitmapPage where
  initialStamp := 5
  magic := BITMAP_MAGIC
  baseOffset := 32
  blocksPerPage := 16
  bitmapLength := 16
  fragmentsPerBlock := 8
  logged i := if i = 2 then 0xff else if i = 3 then 0x01 else 0
  finalStamp := 5

theorem smallPage_ok : BITMAP_PAGE_OK smallPage (newHandle smallDevice smallPage) := by
  refine ⟨⟨rfl, rfl⟩, by decide, le_rfl, rfl, fun _ => rfl⟩

theorem search_exact_small :
    (∃ block, FindBlock smallPage (newHandle smallDevice smallPage) (some ⟨1⟩) = some block ∧
      BlocksFound smallPage (newHandle smallDevice smallPage) 1 block) ∧
    ∃ result, FindFrags smallPage (newHandle smallDevice smallPage) (kind false) 3 none = some result ∧
      FragsFound smallPage (newHandle smallDevice smallPage) false 0 3 result := by
  have hinit : InitHandle smallDevice (some ⟨0, 0, 8192⟩) smallPage = some (newHandle smallDevice smallPage) := rfl
  obtain ⟨hblock, hfrags, _⟩ := search_exact hinit rfl smallPage_ok
  refine ⟨hblock (some ⟨1⟩) fun place hplace => ?_, hfrags false 3 none (by decide) (by decide)⟩
  cases hplace
  decide

/-- A hint past the page stops `FindBlock`. -/
theorem hint_past_page_stops :
    ¬∀ hint, ∃ block, FindBlock smallPage (newHandle smallDevice smallPage) hint = some block ∧
      BlocksFound smallPage (newHandle smallDevice smallPage) (startOf hint) block := by
  intro hall
  obtain ⟨block, hblock, _⟩ := hall (some ⟨16⟩)
  cases hblock

end dce.episode.bitmap
