import Keypad.LetterTable

/-!
Romanization: the first letter under which a character of another script is read in Latin letters.
The letters are data from elsewhere. The table here is a sample that stands for those data: the
alphabets, and some characters of the larger scripts. A character outside it has no romanization.
Nothing that is proved of romanized layouts depends on the sample, since it is proved of every table,
and a table can hold any assignment of letters (`LetterTable.exists_letter?_eq`).
-/
namespace Keypad.Romanization

/-- The alphabets of the sample, with syllabaries and the first ideographs: a row for a stretch of
neighbours. -/
def alphabets : LetterTable :=
  [ ⟨0x40, ".abcdefghijklmnopqrstuvwxyz......abcdefghijklmnopqrstuvwxyz.....".toList⟩,
    ⟨0x80, "..................................cp.y.s..a.....d....up...o.....".toList⟩,
    ⟨0xC0, "aaaaaaaceeeeiiiidnoooooxouuuuytsaaaaaaaceeeeiiiidnooooo.ouuuuyty".toList⟩,
    ⟨0x100, "aaaaaaccccccccddddeeeeeeeeeegggggggghhhhiiiiiiiiiiiijjkkklllllll".toList⟩,
    ⟨0x140, "lllnnnnnn.nnoooooooorrrrrrssssssssttttttuuuuuuuuuuuuwwyyyzzzzzzs".toList⟩,
    ⟨0x180, "bbbb..occddddd..effgghiikkllwnnoooooppy..ssttttuuyvyyzzzzzz...tw".toList⟩,
    ⟨0x1C0, "....dddlllnnnaaiioouuuuuuuuuu.aaaaaaggggkkoooozzjdddgghwnnaaaaoo".toList⟩,
    ⟨0x200, "aaaaeeeeiiiioooorrrruuuussttyyhhndoozzaaeeooooooooyylntjdqacclts".toList⟩,
    ⟨0x240, "z..bu.eejjqqrryy".toList⟩,
    ⟨0x370, "hhss..ww..isss.j......a.eei.o.uoiabgdezetiklmnkopr.stupkpoiuaeei".toList⟩,
    ⟨0x3B0, "uabgdezetiklmnxoprsstupkpoiuouo.btuuupp.qqsswwqqssssffkkhhggcctt".toList⟩,
    ⟨0x3F0, "krcjteesssssrsss".toList⟩,
    ⟨0x400, "iidgediyjlntkiudabvgdezziiklmnoprstufktcss.y.eiiabvgdezziiklmnop".toList⟩,
    ⟨0x440, "rstufktcss.y.eiiiidgidiyjlntkiudooeeiieeiiooiikkppffyyyyuuoooooo".toList⟩,
    ⟨0x480, "qq........jj..rr".toList⟩,
    ⟨0x531, "abgdezeetzilktkhdgcmynsocpjrsvtrtwpkof".toList⟩,
    ⟨0x5D0, ".bgdhvzktykklmmnns.ppttqrst".toList⟩,
    ⟨0x621, ".a.w.y.b.ttjhkddrzsssdtz.gggyii.fqklmnhw.y".toList⟩,
    ⟨0x905, "aaiiuurleeeaoooakkggnccjjnttddnttddnnppbbmyrrlllvsssh".toList⟩,
    ⟨0xE01, "kkkkkkncccccydttttndttttnbppfpfpmyrrllwssshl.h".toList⟩,
    ⟨0x10D0, "abgdevztiklmnopzrstupkgqscczccxjh".toList⟩,
    ⟨0x1E00, "aabbbbbbccddddddddddeeeeeeeeeeffgghhhhhhhhhhiiiikkkkkkllllllllmm".toList⟩,
    ⟨0x1E40, "mmmmnnnnnnnnoooooooopppprrrrrrrrssssssssssttttttttuuuuuuuuuuvvvv".toList⟩,
    ⟨0x1E80, "wwwwwwwwwwxxxxyyzzzzzzhtwyassssdaaaaaaaaaaaaaaaaaaaaaaaaeeeeeeee".toList⟩,
    ⟨0x1EC0, "eeeeeeeeiiiioooooooooooooooooooooooouuuuuuuuuuuuuuyyyyyyyyllvvyy".toList⟩,
    ⟨0x2100, "aacccccegfghhhhhiill.nn.ppqrrrrrsttvzoo".toList⟩,
    ⟨0x3041, "aaiiuueeookgkgkgkgkgszszszszsztdtdttdtdtdnnnnnhbphbphbphbphbpmmm".toList⟩,
    ⟨0x3081, "mmyyyyyyrrrrrwwwwwnvkk".toList⟩,
    ⟨0x30A1, "aaiiuueeookgkgkgkgkgszszszszsztdtdttdtdtdnnnnnhbphbphbphbphbpmmm".toList⟩,
    ⟨0x30E1, "mmyyyyyyrrrrrwwwwwnvkkvvvv".toList⟩,
    ⟨0x4E00, "ydkqsxhmzssxjbymgcczqpssqbycdscdqldylybsgjgyqzjjfgcclzzhwdwzjljp".toList⟩,
    ⟨0xAC00, "gggggggggggggggggggggggggggggggg".toList⟩,
    ⟨0xFF10, ".................abcdefghijklmnopqrstuvwxyz......abcdefghijklmno".toList⟩,
    ⟨0xFF50, "pqrstuvwxyz".toList⟩ ]

/-- Single characters of the sample: ideographs, Hangul syllables and pictographs. -/
def singles : LetterTable :=
  [ ⟨0x4E2D, ['z']⟩, ⟨0x56FD, ['g']⟩, ⟨0x738B, ['w']⟩, ⟨0x674E, ['l']⟩,
    ⟨0x660E, ['m']⟩, ⟨0x5F35, ['z']⟩, ⟨0x4F1F, ['w']⟩, ⟨0x6771, ['d']⟩,
    ⟨0x4EAC, ['j']⟩, ⟨0x5C71, ['s']⟩, ⟨0x7530, ['t']⟩, ⟨0x592A, ['t']⟩,
    ⟨0x90CE, ['l']⟩, ⟨0xAE40, ['g']⟩, ⟨0xCCA0, ['c']⟩, ⟨0xC218, ['s']⟩,
    ⟨0x65E5, ['r']⟩, ⟨0x672C, ['b']⟩, ⟨0x8BED, ['y']⟩, ⟨0x6587, ['w']⟩,
    ⟨0x5B57, ['z']⟩, ⟨0x1F600, ['g']⟩, ⟨0x1F602, ['j']⟩, ⟨0x1F984, ['u']⟩,
    ⟨0x2764, ['h']⟩, ⟨0x1D400, ['a']⟩ ]

def table : LetterTable := alphabets ++ singles

/-- The small letter that a character is romanized by, if it has one. -/
def letter? (c : Char) : Option Char := table.letter? c

end Keypad.Romanization
