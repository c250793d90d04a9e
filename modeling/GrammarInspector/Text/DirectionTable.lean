import GrammarInspector.Text.Table

/-!
Numbers for the directions in which characters are written.
-/

namespace GrammarInspector.Text

/-- The directions of all characters that are not simply written from left to right. A
range may run over code points that no name of a host has. -/
def directions : Table := .ofLines [
    "-8.9.b.b.b.b.b -d.9 -2.b.b.b -1.8 -2.7 -4.8.5.6.5 -1.6 -9.4.6 -11.8 q-3.8.9 x.8",
    "-3.7 -8.8 1-1.7 4-x.8 v.8 ch-1.8 7-d.8 2-r.8 1-g.8 -33.a 5.8 3k.8 3w-6.a 74-4.8.7",
    "1-18.a.1.a.1 -1.a.1 -1.a.1.a 8-10.1 h-1.8.2 -1.7.2.6.2 -1.8 -a.a -1b.2 -k.a",
    "-9.3.7 -1.3 -2.2.a -2s.2 -6.a 1.8 -5.a -1.2 -1.a.8 -3.a -1.2 -9.4 -m.2.a -t.2",
    "-q.a 2-2g.2 -a.a.2 e-16.1 -8.a -1.1 -3.8.1 2.a -n.1 -3.a.1 -8.a.1 -2.a.1 -4.a",
    "2-14.1 -2.a 2.1 1-1b.2 7-8.a -15.2 -1k.a 1j.a 1.a 4-7.a 4.a 3-6.a a-1.a t.a 1m.a",
    "4-3.a 8.a k-1.a e-1.7 7.7 2-4.a 1l.a 4-g.a u-1.a 3.a b-1.a 1l.a 4-7.a 4.a k-1.a",
    "d.7 8-7.a 1m.a 2.a 1-3.a 8-9.a b-1.a u.a 1p.a c.a 11-5.8.7.8 5.a 3.a 1j.a 1-2.a",
    "5-g.a b-1.a k-6.8 2.a 1m.a f-1.a k-1.a s-1.a 1l-1.a 4-3.a 8.a k-1.a t.a 20.a",
    "7-4.a 2i.a 2-6.a 4.7 7-7.a 2q.a 2-8.a b-6.a 21-1.a r.a 1.a 1.a -3.8 1f-d.a 1-4.a",
    "1-1.a 5-1b.a 9.a 2u-3.a 1-5.a 1-1.a 2-1.a p-1.a 4-2.a g-3.a d.a 2-1.a 6.a f.a",
    "jj-2.a 1c-9.8 2u.8 ii-1.8 39-2.a t-1.a u-1.a u-1.a 1v-6.a 8.a 2-a.a 7.7 1.a i-q.8",
    "3e-1.a y.a 3a-2.a 4-1.a 9.a 6-2.a 4-5.8 48-x.8 n-1.a 2.a 1m.a 1-8.a 1.a 2-7.a",
    "6-c.a 1c-2b.a 1c.a 1-4.a 1.a 5.a 14-8.a c-1.a w-3.a 2-1.a 1-2.a 1k.a 1-1.a 3.a",
    "1-2.a 1m-7.a 2-1.a 48-2.a 1-c.a 1-6.a 4.a 6.a 3-1.a 5i-1r.a ek-1.9 2-n.8 8-2.7",
    "2-e.8.6 -p.8 1t-x.7 e-w.a j-11.8 4.7 b-j.8 1o-3r.8.5.7 -81.8 1x-p.8 1-lx.8 1-9e.8",
    "74-lb.8 6d-5.8 4-2.a 7-6.8 3j.a 2o-v.a -ec.8 3-o.8 9-3.a 2.8 6.8 5-2.8 2h-1.a 5.8",
    "2i.8 5g-11.8 5i2-1r.8 h3k-1i.8 92-2.8 2n-3.a.8 -9.a -1.8 u-1.a 28-1.a e-x.8 2u.8",
    "3d.a 3.a 4.a p-1.a 1-3.8.a b-1.7 1m-3.8 24-1.a q-h.a d.a 12-7.a p-a.a 1a-2.a 1c.a",
    "2-3.a 2-1.a 13.a 1v-5.a 2-1.a 2-1.a c.a 8.a 1b.a 1f.a 1-2.a 2-1.a 5-1.a 1.a",
    "16-1.a 8.a 37-1.8 3d.a 2.a 4.a fn4.a 43-g.2 -fw.8 w-f.a l-1.8 18.2 i5.8 1q-24.8",
    "3-g.8 2k.a 6a.a -q.4 3e-4.a w5-7v.1 3.8 -68.1 -e.a -11.1 2-7.a -4k.1 -1.a 4-22.1",
    "3-6.8 -cf.1 -z.2 -3.a 8-p.3 -5.1 p-4.a.8 -w.1 5s-u.3 1-15.1 1-1.a -4.1 g-5.2",
    "8-8.8 x-5.a -13.1 8-l.2 -a.a -8.2 m-h.1 -3.a -34.1 a.a 1i-e.a b-j.8 a.a 2-1.a",
    "a-2.a 1d-3.a 2-1.a 7.a 1p-2.a 10-4.a 1-7.a 1q.a c-1.a 1g-8.a a-3.a 2.a 2n-2.a 2.a",
    "1-1.a 6.a 2.a 4d.a 3-7.a l-1.a 1l-1.a 3.a 11-e.a 1y-5.a d.a 1.a 1.a e-1.a 2d-7.a",
    "2-2.a 1.a n.a 2c-5.a 1.a 4-1.a 1-1.a 6m-3.a 6-1.a 1-1.a r-1.a 2d-7.a 2.a 1-1.a",
    "v-c.8 1q.a 1.a 2-5.a 1.a 2t-2.a 2-3.a 1-4.a 77-8.a 1-1.a 74-1.a 1.a 4.a 40-7.a",
    "4.a w-5.a 2-1.a 14-5.a 2-3.a 8.a 9-5.a 2-2.a 1a-c.a 1-1.a 5i.a 1-2.a 1.a 5l-d.a",
    "2c-l.a 2-6.a 1-1.a 1-1.a 3e-k.a 1.a 20-1.a 3.a 1.a 9n-1.a b-1.a 1g-4.a 5.a 1.a",
    "n.a 3e-7.8 -3.7 -g.8 40e.a 6-e.a 8ug-b.a 3-2.a 1xc-4.a 1n-6.a t4.a 1r-3.a 27.8",
    "1.a f5k-1.a 31d-kw.8 f-1y.a f4-2.a h-7.a 2-6.a u-3.a 1n-2g.8 -2.a.8 56-2e.8",
    "1bd-1i.a 4-1d.a 8.a e.a m-k.a 11s-3z.a 4g-6.a af.a 1p-3.a f.7 do-3.a 72-1.a 6r.a",
    "2.a 7-1.a 5.a 7e-5r.1 -6.a 23-x.1 -6.a -k.1 lt-5o.2 c2-fz.8 1p-2.8 1p.8 4y-1wa.8"]

end GrammarInspector.Text
