import GrammarInspector.Text.Table

/-!
Numbers for the ways in which letters join their neighbours.
-/

namespace GrammarInspector.Text

/-- The ways of all characters that join others: 1 joins what follows, 2 what stands
in front, 3 both, and 4 is passed over. A range may run over code points that no name
of a host has. -/
def joinings : Table := .ofLines [
    "lc-33.4 7n-6.4 7b-18.4 1.4 1-1.4 1-1.4 1.4 20-a.4 5.3 1-3.2.3.2.3.2 -4.3 -3.2",
    "-c.3 1-6.3.2 -1.3 -k.4 e-1.3.4 -2.2 5-e.3 -h.2 -11.3.2 -1.3 -8.2.3.2.3.2 -1.3",
    "-1.2 1.2 -6.4 2-5.4 2-1.4 1-3.4 -1.2 a-2.3 2.3 g.2.4 -2.3 -4.2 -3.3.2",
    "-8.3.2.3.2.3.2 -1.3.2 -q.4 2.2 -a.3 -2.2 -e.3 -1.2 -3.3.2.3 -1.2 -2.3 -1.2 -5.3",
    "12-a.4 p-w.3 -8.4 9.4 o-3.4 1-8.4 1-2.4 1-4.4 i.2 -4.3 -1.2.3.2 -9.3.2.3 -2.2",
    "-2.4 4.3 1-3.3 1.2.3 -p.2 3.3 2-4.3.2.3 7-8.4 -9.3 -2.2 1.2 -1.3 -1.2 -5.3.2 -e.3",
    "1-1k.4 1j.4 1.4 4-7.4 4.4 3-6.4 a-1.4 t.4 1m.4 4-3.4 8.4 k-1.4 q-4.4 1l.4 4-g.4",
    "u-1.4 3.4 b-1.4 1l.4 4-7.4 4.4 k-1.4 m-7.4 1m.4 2.4 1-3.4 8-9.4 b-1.4 u.4 1p.4",
    "c.4 1e.4 3.4 1j.4 1-2.4 5-g.4 b-1.4 t.4 1m.4 2.4 6.4 5-1.4 k-1.4 s-1.4 1l-1.4",
    "4-3.4 8.4 k-1.4 t.4 20.4 7-4.4 2i.4 2-6.4 c-7.4 2q.4 2-8.4 b-6.4 21-1.4 r.4 1.4",
    "1.4 1j-d.4 1-4.4 1-1.4 5-1b.4 9.4 2u-3.4 1-5.4 1-1.4 2-1.4 p-1.4 4-2.4 g-3.4 d.4",
    "2-1.4 6.4 f.4 jj-2.4 qa-2.4 t-1.4 u-1.4 u-1.4 1v-6.4 8.4 2-a.4 9.4 15.3 o-2g.3",
    "c-1.4 -x.3.4.3 39-2.4 4-1.4 9.4 6-2.4 63-1.4 2.4 1m.4 1-8.4 1.4 2-7.4 6-c.4",
    "1c-2b.4 1c.4 1-4.4 1.4 5.4 14-8.4 c-1.4 w-3.4 2-1.4 1-2.4 1k.4 1-1.4 3.4 1-2.4",
    "1m-7.4 2-1.4 48-2.4 1-c.4 1-6.4 4.4 6.4 3-1.4 5i-1r.4 k0-w.4 2da-2.4 3x.4 2o-v.4",
    "fe-3.4 2z-1.4 n9w-3.4 1-9.4 w-1.4 28-1.4 7k.4 3.4 4.4 p-1.4 5.4 j-1d.3.1 29-1.4",
    "q-h.4 d.4 12-7.4 p-a.4 1a-2.4 1c.4 2-3.4 2-1.4 13.4 1v-5.4 2-1.4 2-1.4 c.4 8.4",
    "1b.4 1f.4 1-2.4 2-1.4 5-1.4 1.4 16-1.4 8.4 6m.4 2.4 4.4 fn4.4 ld-f.4 r1.4 6a.4",
    "45-4.4 1ae-e.4 14-7.4 3k-4.3.2 1.2 1-1.2 2.1 -4.2 -3.3.1 -4.3.2 -2.3.2 2.2 -1.4",
    "4-3.3.2 40.3.2.3 -2.2 -2.3.2 -1.3.2.3 -1.2.3.2 n-3.2 -1.3 9d.1 -w.3.2.3 -3.4",
    "1t-4.4 8t-1.4 l.2 -1.3 1-1.3 1e-5.4 1c-2.3.2 -g.3 1-a.4 -2.3.2 r-3.3 -1.2 -b.3",
    "-3.4 16.3 1-1.3 -2.2 1.3 -1.2 -1.3.2 -1.3 1.3 -1.2.3 4.2.3.1 1h.4 1i-e.4 15.4",
    "2-1.4 a-2.4 1d-3.4 2-1.4 7.4 1p-2.4 10-4.4 1-7.4 1q.4 c-1.4 1g-8.4 a-3.4 2.4",
    "2n-2.4 2.4 1-1.4 6.4 2.4 4d.4 3-7.4 l-1.4 1l-1.4 3.4 11-e.4 1y-5.4 d.4 1.4 1.4",
    "e-1.4 2d-7.4 2-2.4 1.4 n.4 2c-5.4 1.4 4-1.4 1-1.4 6m-3.4 6-1.4 1-1.4 r-1.4 2d-7.4",
    "2.4 1-1.4 2y.4 1.4 2-5.4 1.4 2t.4 1.4 2-3.4 1-4.4 77-8.4 1-1.4 74-1.4 1.4 4.4",
    "40-7.4 4.4 w-9.4 14-5.4 2-3.4 8.4 9-5.4 2-2.4 1a-c.4 1-1.4 5i.4 1-2.4 1.4 5l-d.4",
    "1.4 2a-l.4 2-6.4 1-1.4 1-1.4 3e-k.4 1.4 20-1.4 3.4 1.4 9n-1.4 b-1.4 1g-4.4 5.4",
    "1.4 n.4 44l.4 6-e.4 8ug-b.4 3-2.4 1xc-4.4 1n-6.4 t4.4 1r-3.4 29.4 f5k-1.4",
    "3mp-1y.4 f4-2.4 h-7.4 2-6.4 u-3.4 44-2.4 1iz-1i.4 4-1d.4 8.4 e.4 m-k.4 11s-3z.4",
    "4g-6.4 af.4 1p-3.4 e4-3.4 72-1.4 6r.4 2.4 7-1.4 5.4 d6-6.4 23-x.3 -7.4"]

end GrammarInspector.Text
