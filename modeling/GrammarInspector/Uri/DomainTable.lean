import GrammarInspector.Text.Table

/-!
What becomes of characters in the names of hosts.
-/

namespace GrammarInspector.Uri

/-- Characters that a name may be written with. -/
def domainCharacters : Text.Table := .ofLines [
    "-3j w-k7 2-5 4-6 1 1-j 1-b0 1-11 1-1j 1-1i 8-q 4-5 h-l 1-5b 1-1b 2-1m 2-2s e-1m",
    "2-1c 2-e 1-r 2 1-a 5-v 7-22 1-4g 1-7 2-1 2-l 1-6 1 3-3 2-8 2-1 2-3 8 4-1 1-4 2-o",
    "2-2 1-5 4-1 2-l 1-6 1-1 1-1 1-1 2 1-4 4-1 2-2 3 7-3 1 7-g a-2 1-8 1-2 1-l 1-6 1-1",
    "1-4 2-9 1-2 1-2 2 f-3 2-b 7-6 1-2 1-7 2-1 2-l 1-6 1-1 1-4 2-8 2-1 2-2 7-2 4-1 1-4",
    "2-h a-1 1-5 3-2 1-3 3-1 1 1-1 3-1 3-2 3-b 4-4 3-2 1-3 2 6 e-k 5-c 1-2 1-m 1-f 2-8",
    "1-2 1-3 7-1 1-2 1-1 2-3 2-9 7-l 1-2 1-m 1-9 1-4 2-8 1-2 1-3 7-1 5-2 1-3 2-9 1-2",
    "c-c 1-2 1-1e 1-2 1-5 4-f 2-p 1-2 1-h 3-n 1-8 1 2-6 3 4-5 1 1-7 6-9 2-2 c-1l 4-s",
    "11-1 1 1-4 1-n 1 1-m 2-4 1 1-6 1-9 2-3 w-1z 1-z 4-12 1-z 1-e 1-c 11-5h 1 5 2-ag",
    "1-3 2-6 1 1-3 2-14 1-3 2-w 1-3 2-6 1 1-3 2-e 1-1k 1-3 2-1u 2-v 3-p 6-2d 2-5 2-hr",
    "1-r 3-2g 7-l 9-n 9-j c-c 1-2 1-1 c-2l 2-9 6-9 6-p 6-2g 7-16 5-1x a-u 1-b 4-b 4",
    "3-15 2-4 b-17 4-p 6-a 3-1p 2-1s 1-s 2-a 6-9 6-d 2-19 2-b k-24 1-4l 8-1n 3-e 3-1p",
    "5-16 2-a 8-16 5-et 2-5 2-11 2-5 2-7 1 1 1 1-u 2-1g 1-e 1-d 2-5 1-i 2-2 1-8 1-d",
    "2-j 3 7-1h 5-7 2-q 1-c 3-x e-w f-3v 4-ih m-a l-13 k-1cn 2-al 5-18 1 5 2-1j 7-1",
    "e-n 9-6 1-6 1-6 1-6 1-6 1-6 1-6 1-6 1-3h y-p 1-2g c-5x 16-1r 1-2d 2-2u 5-16 1-2l",
    "1-2d a-1a 1-bl 1-3 1-f 1-m9f 3-1i 9-9n k-53 8-64 k-1n 3-9 6-1j 8-1x 8-b 6-37 b-t",
    "3-25 1-a 4-w 1-1i 9-d 2-9 2-2u o-r a-5 2-5 2-5 9-6 1-6 1-1n 4-3h 2-9 6-8mb c-m",
    "4-1c 6is-a5 2-2x 12-6 c-4 5-p 1-4 1 1-1 1-1 1-i1 w-x 1-5 7-f 1-w 2-i 1-3 4-4 1-3q",
    "2 1-59 3-5 2-5 2-5 2-2 3-6 1-6 h-b 1-p 1-i 1-1 1-e 2-d y-3e 5-2 4-18 3-2f 1-c 3",
    "1b-19 3m-s 3-1c f-r 4-z 9-t 5-16 5-t 1-10 4-d 16-4d 2-9 6-z 4-z 4-13 8-1f b-b 1-e",
    "1-6 1-1 1-a 1-e 1-6 1-1 3-1f c-8m 9-l a-7 o-5 1-15 1-8 1x-5 2 1-17 1-1 3 2-m 1-1z",
    "8-8 1c-i 1-1 5-w 3-q 5-q 12-1j 4-j 2-1d 1-1 5-7 1-2 1-s 2-2 4-9 7-8 7-1r w-12 4-b",
    "9-1h 3-s 2-q 5-p 7-3 c-6 28-20 1j-1e d-1e 7-19 8-9 6-11 3-s 8-1 5s-u 1-15 1-2 2-1",
    "g-5 8-8 x-19 8-15 m-p 12-r k-m 9-25 4-z 9-1p 1-4 d-o 7-9 6-1g 1-h 8-12 9-2n 1-j",
    "b-h 1-1a 1q-6 1 1-3 1-e 1-a 6-1m 5-9 6-3 1-7 2-1 2-l 1-6 1-1 1-4 1-9 2-1 2-2 2 6",
    "5-6 2-6 3-4 b-9 1 2 1-11 1-9 1 2 1-3 1-9 1-1 8-1 t-2j 1-4 u-1z 8-9 4m-1h 2-11",
    "y-1w b-9 6-c j-1l 6-9 6-j s-q 2-e 4-m 55-1n 2s-2a c-7 2 2-7 1-1 1-t 1-1 2-b 9-9",
    "1y-7 2-19 2-a r-1z 8-2a d-20 7-9 2e-7 2g-x e-9 6-8 1-18 1-d a-s 3-v 2-l 1-d 21-6",
    "1-1 1-17 3 1-1 1-8 8-9 6-5 1-1 1-10 1-1 1-5 7-9 6-17 4-9 6u-o 7-g 1-14 3-s 2d",
    "f-1d d-pm 2u-32 1-4 b-5f 218-2q d-tr g-l a-32y 5-g6 5a1-1l 1c6-fs 7-u 1-9 4-28",
    "1-9 6-t 2-5 a-1x a-9 1-6 1-k 5-i c0-1l 5i-2i 5-o 2-o 18-22 4-1k 7-g 1s-4 b-6",
    "9-5p1 15-v 2p-36 6pp-3 1-6 1-1 1-82 f t-2 2 e-3 8-az 1s4-2y 5-c 3-8 7-9 2-7",
    "318-70 3-c3 6-m f-g f-19 2-m 9-37 1o-6t a-12 2-5d l-1x 3e-j c-j c-2e 9-o 3r-2c",
    "1-1y 1-1 2 2-1 2-3 1-b 1 1-6 1-1s 1-3 2-7 1-6 1-r 1-3 1-4 1 3-6 1-9f 2-83 2-jh",
    "f-4 1-e uo-u 6-5 5x-6 1-g 2-6 1-1 1-4 5-1p x 34-18 3-d 2-9 4-1 8w-u h-1l 5 cw-15",
    "5y-16 4 5c-u 1-l 8-1 68-6 1-3 1-1 1-e 1-5g 2-f 15-23 4-9 4-1 lt-1v 24-1o 5e-3 1-q",
    "1-1 1 2 1-9 1-3 1 1 6 4 1 1 1-2 1-1 1 2 1 1 1 1 1-1 1 2-3 1-6 1-3 1-3 1 1-9 1-g",
    "5-2 1-4 1-g 1g-1 7i-17 4-2r c-e 2-e 1-e 1-10 b-4s 1k-s d-17 4-8 7-1 e-5 4a-rc 3-g",
    "3-c 3-61 6-b 4 f-b 4-1j 8-9 6-13 8-t 2-b 4-1 e-8 13-9j 8-d 2-c 3-a 3-1k 1 4-f 2-b",
    "4-9 7-42 1-2u sl-wyn w-3dp 2-4gd 2-5rk f-h9 1wi-f1 15u-3t6 5-6jt f62u-6n"]

/-- Characters that are left out of names. -/
def silentCharacters : Text.Table := .ofLines [
    "4t ip 2rz-1 18z-1 2d-4 1kr 2c-4 5-5 3ck 14ez-f 6n 4g 11bz-3 43z-7 h479-6n"]

/-- Characters that others take the place of, with these. -/
def replacedCharacters : Text.Table := .ofLines [
    "1t-p.2p 1x.w 7.w,lk 1.2p 4.w,lg 2-1.1e.w,ld.qk 2.w,mf.1d.33",
    "1.1d,6dg,1g.1d,6dg,1e.1f,6dg,1g 1-m.68 1-6.6w x-1a/2.75 1.2x,lj 1-1.2x,2y -2/2.8l",
    "2-4/2.8q 1-1.30,53 -6/2.8y 1.jg,32 -18/2.97 1.73 -4/2.ai 1.37 1.gj -2/2.ar",
    "1.gk.aw 1-1.gm.b0 2.d9.gp.gr.b6 1.gw.gz 1.h5.h4.bd 3.hb.he 1.hh -4/2.bl 1.hs.bs",
    "1.hv 2.bx 1.i0.c0 1-1.i2 -2/2.c4 1.ia -4/4.c9 7-2.2s,am -2.30,2y -2.32,2y -e/2.cu",
    "2-g/2.db 2-2.2s,3e.dx 1.b9.cf -12/2.e1 1.bi 1-g/2.f7 7.8rp.fw 1.be.8rq 2.g2",
    "1.ao.i1.i4 -8/2.g7 2p.2w.h2.2y.36.hl.hn.ht.3b.3d v.w,li.w,lj.w,lm.w,mg.w,lf.w,ln",
    "2.gz.30.37.3c.id 2o.qh 16.oh 1-4/4.oj 3.w,qh 4.s3 4.w,ld.w,lk,ld.q4 1-2.q5 1.r0",
    "1-1.r1 1-g.q9 1-8.qr z.rb.qa.qg.qt.r1.qz.qu.qo 1-m/2.rd 1.qi.qp.qr 1.qg.qd 1.s8",
    "1.qr.sb 2-2.or -f.uo -v.ts 1c-w/2.v5 9-1g/2.wb 1.y7 -c/2.xu 2-2m/2.y9 2-11.129",
    "1.12f 1a.12d,136 3.12j.12t 6g.17r,19w.18o,19w.1c7,19w.18q,19w 1iy.2tp,2sy",
    "3j.2x9,2wi 14.2wb,2vt.2wb,2w1 1a.2yz 2y.33m,31t,328 1.33n,31t,328 86-11.8w0 1.8x3",
    "5.8x9 1a.3bw l7-5.3xs 1oi.tu.tw.u6 -1.u9.ua.ui.v7.wuj.5my 6-16.3bk 2-2.3ct",
    "30.2p.6e.2q 1-1.2s.d9 -7.2v 1.33.f7.34.36.38.39.3b.2p -1.gg.5qa.2q.2s.2t.gp",
    "-1.gr.2v 1.2z.31.97.33.gk -1.5qu.34.38.39.5r1.hb.3a.5r9 -2.qa -1.qu.2x.36.39.3a",
    "-1.qa.qp -1.qu d.u5 y.gi.2r.gl.6o.gs.2u.gv.gx.h1 -2.h4.5tn.il.h9.5tx.in.hd.hc",
    "-3.he.hk -1.hu.bv -1.i1.5r0 -1.i3.3e -2.i8.qg 1s-44/2.5xd 5.2p,ji.601 2.67",
    "1-2m/2.61t 9-7.64g 8-5.64w a-7.65c 8-7.65s 8-5.668 b-6/2.66p 8-7.674",
    "g.64g,qh.64h,qh.64i,qh.64j,qh.64k,qh.64l,qh.64m,qh.64n,qh.64g,qh.64h,qh.64i,qh",
    ".64j,qh.64k,qh.64l,qh.64m,qh.64n,qh.65c,qh.65d,qh.65e,qh.65f,qh.65g,qh.65h,qh",
    ".65i,qh.65j,qh.65c,qh.65d,qh.65e,qh.65f,qh.65g,qh.65h,qh.65i,qh.65j,qh.674,qh",
    ".675,qh.676,qh.677,qh.678,qh.679,qh.67a,qh.67b,qh.674,qh.675,qh.676,qh.677,qh",
    ".678,qh.679,qh.67a,qh.67b,qh 2.67k,qh.q9,qh.q4,qh 2.69i,qh",
    "-1.69c.67k.q4.q9,qh.w,lv 1.w,lv.w,n6.w,lk,n6.67o,qh.qf,qh.q6,qh",
    "2.69y,qh.67m.q5.67o.q6.qf,qh.w,lv,lc.w,lv,ld.w,lv,n6 8-1.6a8.67q.q7",
    "1.w,lw,lc.w,lw,ld.w,lw,n6 8-1.6ao.67u.r1.6at.w,lk,lc.w,lk,ld 3.67w,qh.qx,qh.r2,qh",
    "2.6ba,qh.67s.r0.67w.r2.qx,qh.w,ld.w,lw 1.w.w.w.w.w.w.w.w.w.w.w 6.6c0 5.w,mr n.w",
    "3.6cy,6cy.6cy,6cy,6cy 1.6d1,6d1.6d1,6d1,6d1 4.x,x 1.w,lh 8.1r,1r.1r,x.x,1r",
    "d.6cy,6cy,6cy,6cy 7.w g.1c.2x 2-5.1g.17.6qa.1p.14.15.32 -9.1c.17.6qa.1p.14.15",
    "1.2p.2t.33.3c.gp.2w -3.2z.34.37.38 b.36,37 2f.2p,1b,2r.2p,1b,37.2r.4w,2r",
    "1.2r,1b,33.2r,1b,39.gr 1.4w,2u.2v.2w.2w.2w.2w.87.2x.2x.30.30 1.32.32,33",
    "2-2.34.36.36 2.37,31.38,2t,30.38,31 1.3e 1.qx 1.3e 1.2z.6d.2q.2r",
    "1.2t.2t.2u.6ku.31.33 -3.15c.2x 1.2u,2p,3c.qo.qb.qb.qo.6q9 4.2s.2s.2t.2x.2y",
    "6.1d,6dg,1j.1d,6dg,1l.1d,6dg,1d,1c.1d,6dg,1f.1e,6dg,1f.1d,6dg,1h.1e,6dg,1h",
    ".1f,6dg,1h.1g,6dg,1h.1d,6dg,1i.1h,6dg,1i.1d,6dg,1k.1f,6dg,1k.1h,6dg,1k.1j,6dg,1k",
    ".1d,6dg.2x.2x,2x.2x,2x,2x.2x,3a.3a.3a,2x.3a,2x,2x.3a,2x,2x,2x.2x,3c.3c.3c,2x",
    ".3c,2x,2x.30.2r.2s.31.2x.2x,2x.2x,2x,2x.2x,3a.3a.3a,2x.3a,2x,2x.3a,2x,2x,2x.2x,3c",
    ".3c.3c,2x.3c,2x,2x.30.2r.2s.31 3.6mc 5.1c,6dg,1f 4i.6qz,6qz.6qz,6qz,6qz",
    "1.6r2,6r2.6r2,6r2,6r2 fj-8.1d.1d,1c.1d,1d.1d,1e.1d,1f.1d,1g.1d,1h.1d,1i.1d,1j",
    ".1d,1k.1d,1l.1e,1c.14,1d,15.14,1e,15.14,1f,15.14,1g,15.14,1h,15.14,1i,15.14,1j,15",
    ".14,1k,15.14,1l,15.14,1d,1c,15.14,1d,1d,15.14,1d,1e,15.14,1d,1f,15.14,1d,1g,15",
    ".14,1d,1h,15.14,1d,1i,15.14,1d,1j,15.14,1d,1k,15.14,1d,1l,15.14,1e,1c,15",
    "k.14,2p,15.14,2q,15.14,2r,15.14,2s,15.14,2t,15.14,2u,15.14,2v,15.14,2w,15",
    ".14,2x,15.14,2y,15.14,2z,15.14,30,15.14,31,15.14,32,15.14,33,15.14,34,15.14,35,15",
    ".14,36,15.14,37,15.14,38,15.14,39,15.14,3a,15.14,3b,15.14,3c,15.14,3d,15.14,3e,15",
    "-p.2p -p.2p.1c 10h.6qz,6qz,6qz,6qz 2v.1m,1m,1p.1p,1p.1p,1p,1p ax-1b.8q8 1c.8rl",
    "1.h7.5tp.hp 2-4/2.8rs 1.gh.hd.gg.gi 1-3/3.8s3 6.2y.3a -1.fz -2q/2.8sh 8.8vg",
    "1-5/5.8vi 3g.8yp 8f.lal 2b.vj3 c.feo.ffs.fg6.fgf.fh5.fid.fik.fj4.fju.g1r.g2t.g2z",
    ".g3m.g46.g4r.g68.g6t.g74.gbf.ge1.get.gey.gfs.gg1.ggs.gh5.ghu.gja.gjs.gkj.h5j.h7j",
    ".hkb.hky.hl6.hlh.hlz.ho3.i1c.i2o.i60.i6n.i76.i7s.i9a.i9d.ijf.ijp.ik1.ike.inm.inu",
    ".inz.ir8.iri.irv.is3.its.iu9.iur.iwz.jd4.jee.jez.jzj.jzo.k1z.k2f.k2s.k3d.k4g.k4l",
    ".kc0.kco.kdk.l5s.l7m.l89.l9v.laj.las.laz.lcf.lck.ldg.m7f.mju.mk6.mkb.mkf.mkn.ml5",
    ".ml7.mng.mtg.mtl.n30.n3a.n4o.n4v.n54.n5c.n7v.n82.nee.nel.nfy.ngf.nhq.nob.noi.noz",
    ".ny2.o1k.o1q.o6s.o97.oah.okz.ooo.p4m.p5d.p6y.p8d.pa9.pak.paq.pbn.pdr.pe1.pnn.pnu",
    ".po3.poc.pos.pp7.ppb.pri.prm.prs.qj1.qjv.qww.qx8.qxv.r5q.r63.r82.r9c.rp3.rpi.rpx",
    ".rqw.rrx.rxg.rxs.rzn.s6j.s7e.sd7.sds.sdx.sk1.sp5.ssm.sss.ssx.tiv.tj4.tng.trq.trt",
    ".tt4.tw1.twe.twi.twp.tzf.u0d.u0j.u0x.u5k.u6z.u73.uc6.uc9.ucs.ujs.ul4.ulb.un9.unj",
    ".unm.unw.uoq.uzp.vat.vb3.vc5.vcr.vcz.vd9.vdd.veh.vel.vf2.vf7.vfk.vgb.vgq.vgy.vil",
    ".vj0.vj4 16.w 1.1a 1f.9hu 1.gg1 -1.gg4 2o.w,9ll.w,9lm 2.9l4,9l6 2n.9mb,9mw",
    "1d-1.3cw.3hm.3cy -1.3ho -2.3cz -5.3hs.3dm -2.3d2.3dt -9.3d5 -k.3fl 1-1.3dg",
    "-1.3if.3ik.3im.3ir.3iv.3ix.3do.3j1.3j3 -1.3dp.3ds -1.3du.3dz.3e1",
    "-4.3e3.3ea.3ee.3eo.3ev.3f0 -1.3jl -2.3fb -1.3gk.3go -1.3gx.3h0.3ha.3hd",
    "3.feo.fik.fex.h5n.fey.ffx.fez.n5e.fh5.ffd.fep.hm1.h80.fju",
    "2o.14,3cw,15.14,3cy,15.14,3cz,15.14,3d1,15.14,3d2,15.14,3d3,15.14,3d5,15",
    ".14,3d7,15.14,3d8,15.14,3da,15.14,3db,15.14,3dc,15.14,3dd,15.14,3de,15.14,xz4,15",
    ".14,yvs,15.14,zc4,15.14,108s,15.14,10p4,15.14,115g,15.14,1224,15.14,12ys,15",
    ".14,13f4,15.14,14bs,15.14,14s4,15.14,158g,15.14,15os,15.14,1654,15.14,13p8,15",
    ".14,1350,13ic,15.14,1350,16f8,15 1.14,feo,15.14,fik,15.14,fex,15.14,h5n,15",
    ".14,fis,15.14,g31,15.14,fer,15.14,g2z,15.14,fh9,15.14,gg1,15.14,kco,15.14,m7f,15",
    ".14,ldg,15.14,kdk,15.14,ssx,15.14,h7j,15.14,k4l,15.14,kkq,15.14,kcp,15.14,ny6,15",
    ".14,glp,15.14,mm1,15.14,rs1,15.14,nz1,15.14,gc4,15.14,fkz,15.14,gos,15.14,i1y,15",
    ".14,nhf,15.14,flt,15.14,rt3,15.14,ggk,15.14,nzh,15.14,fm9,15.14,pnu,15.14,po3,15",
    ".gun.inw.k1z.oen 8.34,38,2t.1e,1d.1e,1e.1e,1f.1e,1g.1e,1h.1e,1i.1e,1j.1e,1k.1e,1l",
    ".1f,1c.1f,1d.1f,1e.1f,1f.1f,1g.1f,1h.3cw -1.3cy -2.3d1.3d5 -1.3d7",
    "-4.3da.xz4.yvs.zc4.108s.10p4.115g.1224.12ys.13f4.14bs.14s4.158g.15os.1654",
    ".14c8,y5c.13p8,13dk.138w 1.feo.fik.fex.h5n.fis.g31.fer.g2z.fh9.gg1.kco.m7f.ldg",
    ".kdk.ssx.h7j.k4l.kkq.kcp.ny6.glp.mm1.rs1.nz1.gc4.o2g.n5j.ho3.six.g16.ghc.lig.u11",
    ".fm9.g49.l7n.fey.ffx.fez.ijq.gkz.gfv.i3b.i1y.nhf.flt.rt3.ggk.hlo.1f,1i.1f,1j",
    ".1f,1k.1f,1l.1g,1c.1g,1d.1g,1e.1g,1f.1g,1g.1g,1h.1g,1i.1g,1j.1g,1k.1g,1l.1h,1c",
    ".1d,kco.1e,kco.1f,kco.1g,kco.1h,kco.1i,kco.1j,kco.1k,kco.1l,kco.1d,1c,kco",
    ".1d,1d,kco.1d,1e,kco.2w,2v.2t,36,2v.2t,3a.30,38,2s.9lu.9lw.9ly.9m0",
    "-1.9m2.9m5.9m7.9m9.9mb.9md.9mf.9mh.9mj.9ml.9mn.9mp.9ms.9mu.9mw",
    "-5.9my.9n6.9n9.9nc.9nf -4.9ni.9no.9nq -5.9ns -3.9nz.fl0,gp8.9lu,9n5,9oc,9mw",
    ".9lu,9nv,9n9,9lt.9lu,9o3,9ne,9lu.9lu,9oc,9nv.9lw,9mz,9o3,9m8.9lw,9o3,9mp",
    ".9ly,9m1,9o3.9m0,9mh,9m7,9oc,9mx.9m0,9oc,9m3,9oc.9m2,9o3,9mh.9m2,9oc,9nk",
    ".9m3,9lw,9nu.9m3,9nt,9mr,9mw.9m3,9nx,9nu,9oc.9m4,9nx,9o3.9m4,9o3,9ni.9m6,9m4",
    ".9m6,9mz,9oc.9m5,9np,9nu,9oc.9m6,9nv,9mo,9oc.9m5,9nx.9m5,9nx,9m8,9nt,9nk",
    ".9m5,9nx,9nl,9oc,9mw,9nv.9m5,9nx,9nz,9mr,9mw.9m8,9nt,9nk.9m8,9nt,9nk,9mw,9o3",
    ".9m7,9nv,9mk,9lw,9nx.9m7,9nx,9oc,9n1.9m9,9oc,9mh.9mb,9nv,9my.9mb,9oc,9nh",
    ".9md,9lw,9m7,9nv.9md,9o3,9mp,9oc,9nk.9mf,9nu,9o3,9m8.9mj,9o3,9mp.9mj,9o3,9mw",
    ".9mo,9oc,9mh.9mv,9mf.9mx,9nv.9mw,9o3.9my,9n2.9n2,9mr,9mw.9n3,9lw,9ms",
    ".9n5,9oc,9mj,9o3,9mw.9n5,9oc,9ms.9n4,9oc,9nw,9nv.9n8,9lu,9mh,9mw,9nv.9n8,9m7,9nv",
    ".9n8,9mb.9n7,9nv.9n9,9lt,9nt,9mr,9mx.9n9,9lv,9oc,9mw.9na,9mr,9mf,9lz,9nv",
    ".9n9,9nt,9o3.9nc,9m7,9mn,9oc,9nv.9ne,9ml.9ne,9mz,9n6.9nc,9nv,9ms.9ne,9o3,9mh",
    ".9ne,9oc,9mg.9nd,9oc,9mn.9nh,9lw,9o3,9mw.9ng,9nv,9mw.9nf,9o3.9nh,9o3,9mx",
    ".9nf,9oc,9nv.9nf,9oc,9o3.9ni,9lw,9m7,9nx.9ni,9lw,9nv.9ni,9mr,9n3.9ni,9nv,9m7",
    ".9ni,9o3,9mf,9nr,9o3.9nj,9m7,9nx,9o3.9nj,9nu.9nj,9nu,9n4,9oc,9nv.9nl,9m4",
    ".9nl,9m4,9mw,9o3.9nl,9oc,9mw,9nv.9no,9oc,9mx.9no,9oc,9nv.9nq,9lu,9o3",
    ".9nu,9mr,9mw,9nv.9nu,9nt.9nv,9n8,9oc.9nv,9oc,9na,9nv.9nw,9nk.9nw,9o3,9mw,9ma,9o3",
    ".9nz,9mr,9mw.1c,m9l.1d,m9l.1e,m9l.1f,m9l.1g,m9l.1h,m9l.1i,m9l.1j,m9l.1k,m9l",
    ".1l,m9l.1d,1c,m9l.1d,1d,m9l.1d,1e,m9l.1d,1f,m9l.1d,1g,m9l.1d,1h,m9l.1d,1i,m9l",
    ".1d,1j,m9l.1d,1k,m9l.1d,1l,m9l.1e,1c,m9l.1e,1d,m9l.1e,1e,m9l.1e,1f,m9l.1e,1g,m9l",
    ".2w,34,2p.2s,2p.2p,39.2q,2p,36.33,3a.34,2r.2s,31.2s,31,1e.2s,31,1f.2x,39.inn,jdc",
    ".k6l,gp8.hlz,l7n.k5q,lh7.kkq,irz,fmi,ny6.34,2p.32,2p.qk,2p.31,2p.2z,2p.2z,2q",
    ".31,2q.2v,2q.2r,2p,30.2z,2r,2p,30.34,2u.32,2u.qk,2u.qk,2v.31,2v.2z,2v.2w,3e",
    ".2z,2w,3e.31,2w,3e.2v,2w,3e.38,2w,3e.qk,30.31,30.2s,30.2z,30.2u,31.32,31.qk,31",
    ".31,31.2r,31.2z,31.31,31,1e.2r,31,1e.31,1e.2z,31,1e.31,31,1f.2r,31,1f.31,1f",
    ".2z,31,1f.31,6qd,37.31,6qd,37,1e.34,2p.2z,34,2p.31,34,2p.2v,34,2p.36,2p,2s",
    ".36,2p,2s,6qd,37.36,2p,2s,6qd,37,1e.34,37.32,37.qk,37.31,37.34,3a.32,3a.qk,3a",
    ".31,3a.2z,3a.31,3a.34,3b.32,3b.qk,3b.31,3b.2z,3b.31,3b.2z,qx.31,qx",
    "1.2q,35.2r,2r.2r,2s.2r,6qd,2z,2v 1.2s,2q.2v,3d.2w,2p.2w,34.2x,32.2z,2z.2z,31",
    ".2z,38.30,31.30,32.30,33,2v.30,3c.31,2q.31,2x,30.31,33,30.34,2w",
    "1.34,34,31.34,36.37,36.37,3a.3b,2q.3a,6qd,31.2p,6qd,31.1d,k4l.1e,k4l.1f,k4l",
    ".1g,k4l.1h,k4l.1i,k4l.1j,k4l.1k,k4l.1l,k4l.1d,1c,k4l.1d,1d,k4l.1d,1e,k4l",
    ".1d,1f,k4l.1d,1g,k4l.1d,1h,k4l.1d,1i,k4l.1d,1j,k4l.1d,1k,k4l.1d,1l,k4l.1e,1c,k4l",
    ".1e,1d,k4l.1e,1e,k4l.1e,1f,k4l.1e,1g,k4l.1e,1h,k4l.1e,1i,k4l.1e,1j,k4l.1e,1k,k4l",
    ".1e,1l,k4l.1f,1c,k4l.1f,1d,k4l.2v,2p,30 mkg-18/2.wu9 j-q/2.ww1 1.ui.uk 3o-c/2.x0j",
    "3-1o/2.x0z 1.x2n 8-2/2.x2y 1.5tl -8/2.x33 4.x3g 1.h1 2-2/2.x3l 3-i/2.x3r",
    "1.h2.gs.gx.h8.h6 1.im.hz.il.xub -e/2.x4l 1.x3o.hu.5u6 -2/2.x54 1.h0 -e/2.x59 1.bf",
    "k.37.2r.2u.35.x6e 2.87.9f o2.x0n.xtj.h7.xua 9.i5 6-27.3vk",
    "fnk.2u,2u.2u,2x.2u,30.2u,2u,2x.2u,2u,30 -1.37,38 c.12s,12u.12s,12d.12s,12j",
    ".132,12u.12s,12l 8.15u.15c -1.15f -2.15n.160.162.17 11.15c,15o.19t.19t.1a3.1a3",
    ".1a3.1a3.1a6.1a6.1a6.1a6.1a8.1a8.1a8.1a8.1a2.1a2.1a2.1a2.1a7.1a7.1a7.1a7.1a1.1a1",
    ".1a1.1a1.1b8.1b8.1b8.1b8.1ba.1ba.1ba.1ba.1ac.1ac.1ac.1ac.1ab.1ab.1ab.1ab.1ae.1ae",
    ".1ae -1.1ae.1af.1af.1af.1al.1al.1ak.1ak.1am.1am.1ag.1ag.1aw.1aw.1ap.1ap.1bd.1bd",
    ".1bd.1bd.1bj.1bj.1bj.1bj.1bn.1bn.1bn.1bn.1bl.1bl.1bl.1bl.1bu",
    "-1.1bu.1bv.1bv.1bv.1c0 -1.1c0.1c1.1c1.1c1.1by.1by.1by.1by.1ci -1.1ci.1cj",
    "x.1bh.1bh.1bh.1bh.1c7.1c7.1c6.1c6.1c8.1c8.1c7,19w.1cb.1cb.1c5.1c5.1c9.1c9.1cg.1cg",
    ".1cg.1cg.18p.18p -1.17q,17r -1.17q,1cl -1.17q,18o -1.17q,1c7 -1.17q,1c6",
    "-1.17q,1c8 -2.17q,1cg -2.17q,18p.1cc.1cc.1cc.1cc.17q,17w.17q,17x.17q,18l.17q,18p",
    ".17q,18q.17s,17w.17s,17x.17s,17y.17s,18l.17s,18p.17s,18q.17u,17w.17u,17x.17u,17y",
    ".17u,18l.17u,18p.17u,18q.17v,17w.17v,18l.17v,18p.17v,18q.17w,17x.17w,18l.17x,17w",
    ".17x,18l.17y,17w.17y,17x.17y,18l.183,17w.183,17x.183,17y.183,18l.185,17x.185,18l",
    ".186,17w.186,17x.186,17y.186,18l.187,17x.187,18l.188,18l.189,17w.189,18l.18a,17w",
    ".18a,18l.18h,17w.18h,17x.18h,17y.18h,18l.18h,18p.18h,18q.18i,17x.18i,18l.18i,18p",
    ".18i,18q.18j,17r.18j,17w.18j,17x.18j,17y.18j,18k.18j,18l.18j,18p.18j,18q.18k,17w",
    ".18k,17x.18k,17y.18k,18l.18k,18p.18k,18q.18l,17w.18l,17x.18l,17y.18l,18l.18l,18p",
    ".18l,18q.18m,17w.18m,17x.18m,17y.18m,18l.18m,18p.18m,18q.18n,17w.18n,18l.18n,18p",
    ".18n,18q.18q,17w.18q,17x.18q,17y.18q,18l.18q,18p.18q,18q.180,19s.181,19s.18p,19s",
    ".w,18s,18x.w,18t,18x.w,18u,18x.w,18v,18x.w,18w,18x.w,18x,19s.17q,181.17q,182",
    ".17q,18l.17q,18m.17q,18p.17q,18q.17s,181.17s,182.17s,18l.17s,18m.17s,18p.17s,18q",
    ".17u,181.17u,182.17u,18l.17u,18m.17u,18p.17u,18q.17v,181.17v,182.17v,18l.17v,18m",
    ".17v,18p.17v,18q.18h,18p.18h,18q.18i,18p.18i,18q.18j,17r.18j,18k.18j,18l.18j,18p",
    ".18j,18q.18k,18l.18k,18p.18k,18q.18l,17r.18l,18l.18m,181.18m,182.18m,18l.18m,18m",
    ".18m,18p.18m,18q.18p,19s.18q,181.18q,182.18q,18l.18q,18m.18q,18p.18q,18q.17q,17w",
    ".17q,17x.17q,17y.17q,18l.17q,18n.17s,17w.17s,17x.17s,17y.17s,18l.17s,18n.17u,17w",
    ".17u,17x.17u,17y.17u,18l.17u,18n.17v,18l.17w,17x.17w,18l.17x,17w.17x,18l.17y,17w",
    ".17y,18l.183,17w.183,17x.183,17y.183,18l.185,17x.185,17y.185,18l.186,17w.186,17x",
    ".186,17y.186,18l.187,17x.188,18l.189,17w.189,18l.18a,17w.18a,18l.18h,17w.18h,17x",
    ".18h,17y.18h,18l.18i,17x.18i,18l.18j,17w.18j,17x.18j,17y.18j,18k.18j,18l.18k,17w",
    ".18k,17x.18k,17y.18k,18l.18k,18n.18l,17w.18l,17x.18l,17y.18l,18l.18m,17w.18m,17x",
    ".18m,17y.18m,18l.18m,18n.18n,17w.18n,18l.18n,19s.18q,17w.18q,17x.18q,17y.18q,18l",
    ".18q,18n.17q,18l.17q,18n.17s,18l.17s,18n.17u,18l.17u,18n.17v,18l.17v,18n.183,18l",
    ".183,18n.184,18l.184,18n.18j,18k.18j,18l.18k,18l.18m,18l.18m,18n.18q,18l.18q,18n",
    ".18g,18u,18x.18g,18v,18x.18g,18w,18x.187,18p.187,18q.189,18p.189,18q.18a,18p",
    ".18a,18q.183,18p.183,18q.184,18p.184,18q.17x,18p.17x,18q.17w,18p.17w,18q.17y,18p",
    ".17y,18q.185,18p.185,18q.186,18p.186,18q.184,17w.184,17x.184,17y.184,18l.184,181",
    ".183,181.185,181.186,181.187,18p.187,18q.189,18p.189,18q.18a,18p.18a,18q.183,18p",
    ".183,18q.184,18p.184,18q.17x,18p.17x,18q.17w,18p.17w,18q.17y,18p.17y,18q.185,18p",
    ".185,18q.186,18p.186,18q.184,17w.184,17x.184,17y.184,18l.184,181.183,181.185,181",
    ".186,181.184,17w.184,17x.184,17y.184,18l.183,18n.184,18n.187,18l.183,17w.183,17x",
    ".183,17y.184,17w.184,17x.184,17y.187,18l.188,18l -1.17r,18r i.17u,17w,18l",
    "-1.17u,17x,17w.17u,17x,18l.17u,17y,18l.17u,18l,17w.17u,18l,17x.17u,18l,17y",
    "-1.17w,18l,17x.17x,18l,18q.17x,18l,18p.183,17x,17w.183,17w,17x.183,17w,18p",
    "-1.183,18l,17x.183,18l,17w -1.183,18l,18l -1.185,17x,17x.185,18l,18l",
    "-1.184,17x,18l.184,17w,18q -1.184,18l,17y -1.184,18l,18l.186,17x,18p",
    "-1.186,17y,18l -1.187,18l,17x.187,18l,18l.187,18l,18q.189,17w,18l",
    "-1.189,18l,18l.189,18l,18p.18a,18l,18l.18a,18l,18q.18a,18l,18p",
    "-1.18h,17y,18l.18i,18l,17x.18i,18l,18l.18k,17x,18l.18k,17x,18q.18k,17x,18p",
    "-1.18k,17w,17w -1.18k,17y,18l -1.18k,18l,17x.18l,17x,17w.18l,17x,18l.18l,17x,18q",
    ".18l,17w,17x.18l,17w,18l.18l,17y,17w.18l,17y,18l 2.18l,17w,17y.18n,18l,17w",
    ".18n,18l,18l.18m,17x,18l.18m,17x,18p -1.18m,17w,18l.18m,17w,18p.18m,18l,18q",
    ".18m,18l,18p -1.18q,18l,18l.17s,17y,18q.17u,17w,18q.17u,17w,18p.17u,17y,18q",
    ".17u,17y,18p.17u,18l,18q.17u,18l,18p.17w,18l,18q.17w,17x,18p.17w,18l,18p",
    ".183,17y,18p.185,17x,18q.184,17x,18q.186,17x,18q.18k,17w,18q.18k,18l,18q",
    ".18q,17x,18q.18q,17w,18q.18q,18l,18q.18l,18l,18q.18i,18l,18q.18m,17x,18q",
    ".18i,18l,17x.18k,17x,18l.189,18l,18q.18j,18l,18q.18m,17w,17x.18l,17y,18q",
    ".18k,17w,18l.18j,18l,18l.18k,17w,18l.18m,17w,17x.17w,17x,18q.17x,17w,18q",
    ".18l,17w,18q.18h,18l,18q.17s,17x,18q.18j,18l,18l.189,17w,18l.185,18l,18l",
    ".183,17y,18q.18m,17w,18q 14.185,18k,1ci.18i,18k,1ci.17r,18k,18k,18n",
    ".17r,18j,17s,181.18l,17x,18l,17z.185,18k,189,18l.181,183,18o,18k.189,18k,18q,18n",
    ".18o,183,18k,18l.185,18k,18p",
    ".185,18k,18p,w,17r,18k,18k,18n,w,189,18k,18q,18n,w,18o,183,18k,18l",
    ".17w,18k,w,17w,18k,17r,18k,18n.181,1cc,17r,18k j.18.9hd 1-1.1m.x.1r -1.9hy",
    "o.6c4.6c3.2n.2n.14.15.3f.3h -1.9hw -1.9hs -1.9hm -1.9hk -3.9ho 2.2j.2l",
    "-3.w,lh.2n.2n.2n.18.9hd 2.1n.1m.1r.x.6c4.14.15.3f.3h -1.9hw.z.12.16.17.19.1o.1q",
    ".1p 1.2k.10.11.1s 4.w,18r.18g,18r.w,18s 1.w,18t 1.w,18u.18g,18u.w,18v.18g,18v",
    ".w,18w.18g,18w.w,18x.18g,18x.w,18y.18g,18y -1.17l -1.17m -1.17n -1.17o",
    "-1.17p.17q.17q -1.17q -1.17r.17s.17s -1.17s -1.17t.17u.17u -1.17u.17v.17v",
    "-1.17v.17w.17w -1.17w.17x.17x -1.17x.17y.17y -1.17y -1.17z -1.180 -1.181",
    "-1.182.183.183 -1.183.184.184 -1.184.185.185 -1.185.186.186 -1.186.187.187",
    "-1.187.188.188 -1.188.189.189 -1.189.18a.18a.18a.18h.18h.18h -1.18h.18i.18i",
    "-1.18i.18j.18j -1.18j.18k.18k -1.18k.18l.18l -1.18l.18m.18m -1.18m.18n.18n -1.18n",
    "-1.18o -1.18p.18q.18q.18q -1.18k,17m -1.18k,17n -1.18k,17p -1.18k,17r 4-v.x -p.2p",
    "-z.2j -1.879.1a -1.9ho.9hd.9ob.9o2.9lt.9lv.9lx.9lz.9m1.9nn.9np.9nr.9mr.9oc.9lu",
    ".9lw.9ly.9m0 -1.9m2.9m5.9m7.9m9.9mb.9md.9mf.9mh.9mj.9ml.9mn.9mp.9ms.9mu.9mw",
    "-5.9my.9n6.9n9.9nc.9nf -4.9ni.9no.9nq -5.9ns.9nz.9o3 -1.9ll 1-1.3cw.3hm.3cy",
    "-1.3ho -2.3cz -5.3hs.3dm -2.3d2.3dt -9.3d5 3-5.3fl 2-5.3fr 2-5.3fx 2-2.3g3",
    "3-1.4i.4s.w,lg.4m.4l.6g9 1.7b6 -3.6mo.7fk.7gr sx-13.1fe0 3s-z.1fiw 4c-a.1fo7",
    "1-e.1foj 1-6.1foz 1-1.1fp7 dn-1.k0.6e.ih.gj 1.ir.xuu.it.is",
    "-1.gm.5u9.go.gu.ix.h0.gy.gw.ij.87.ik.h3.hw -1.iy.h8.2mmc.x3i.ha.2mmd.i6.2mme.6w",
    "-1.hi.35.hm.2mmg -1.hp.hs.iw.iu.xuv.iv.i0.8s1 1.i7 -1.ip.ig -2.cg.2mmi.2mn2",
    "xx-1e.1h34 4d-l.1h80 27u-v.1jgg gw0-v.20dc 1s-o.20fv il9-p.2p -9.1c 1dy-p.2p",
    "-p.2p -p.2p -6.2p 1-h.2x -p.2p -p.2p.2p 1.2r -6/3.2s.2z 2-3.32 1-7.37 -3.2p 1.2u",
    "1-6.2w 1-a.34 -p.2p -p.2p.2p.2q 1-3.2s 2-7.2y 1-6.37 1-p.2p.2p.2q 1-3.2s 1-4.2x",
    "1.33 3-6.37 1-p.2p -p.2p -p.2p -p.2p -p.2p -p.2p -p.2p -p.2p -p.2p -p.2p -p.2p",
    "-p.2p -p.2p.8h.fr 2-g.q9.qg -6.qr.6pz -g.q9.qr -6.qr.6pu.qd.qg.qi.qu.qp.qo",
    "-g.q9.qg -6.qr.6pz -g.q9.qr -6.qr.6pu.qd.qg.qi.qu.qp.qo -g.q9.qg -6.qr.6pz",
    "-g.q9.qr -6.qr.6pu.qd.qg.qi.qu.qp.qo -g.q9.qg -6.qr.6pz -g.q9.qr",
    "-6.qr.6pu.qd.qg.qi.qu.qp.qo -g.q9.qg -6.qr.6pz -g.q9.qr -6.qr.6pu.qd.qg.qi.qu.qp",
    ".qo.rh.rh 2-9.1c -9.1c -9.1c -9.1c -9.1c 1m8-8.ts -2.u2 -a.u6.uj",
    "-1.ul.ww9.yh.uu.uw.yx.xb.y7 -8.ts -1.u2 -1.u6.u9 -5.ub -1.ui.wh.uu.ut.v3.x7.wup",
    ".xd 1oy-x.2oma ym-1.17r.17w.17z 1.18o.182.17x.187.18q -3.18j.183.189.18h.185.18i",
    ".181.184 -1.17u.17y.180.186.188.18a.19q.1bu.1b5.19r 1.17s.17w 1.18n 2.17x 1.18q",
    "-3.18j.183.189.18h.185.18i 1.184 -1.17u.17y 1.186 1.18a 6.17w 4.17x 1.18q",
    "1-2/2.18k.183.189 1.185.18i 1.184 2.17y 1.186 1.18a 1.1bu 1.19r 1.17s.17w 1.18n",
    "2.17x.187.18q.18j 1-1.18l.183.189.18h.185.18i 1.184 -1.17u.17y 1.186.188.18a.19q",
    "1.1b5 1-1.17r.17w.17z -1.18n.182.17x.187.18q 1-2.18k.183.189.18h.185.18i.181.184",
    "-1.17u.17y.180.186.188.18a 5.17s.17w.17z 1.18o.182.17x.187.18q",
    "1-2.18k.183.189.18h.185.18i.181.184 -1.17u.17y.180.186.188.18a",
    "g5.1c,18.1d,18.1e,18.1f,18.1g,18.1h,18.1i,18.1j,18.1k,18.1l,18",
    "5.14,2p,15.14,2q,15.14,2r,15.14,2s,15.14,2t,15.14,2u,15.14,2v,15.14,2w,15",
    ".14,2x,15.14,2y,15.14,2z,15.14,30,15.14,31,15.14,32,15.14,33,15.14,34,15.14,35,15",
    ".14,36,15.14,37,15.14,38,15.14,39,15.14,3a,15.14,3b,15.14,3c,15.14,3d,15.14,3e,15",
    ".9hw,37,9hx.2r.36.2r,2s.3b,3e 1-p.2p.2w,3a.31,3a.37,2s.37,37.34,34,3a.3b,2r",
    "q.31,2r.31,2s.31,36 z.2s,2y 33.9kr,9jf.9mb,9mb.9md d.jez.i1j.gjw.9mv.fik.hlm.r8j",
    ".hm1.fj8.k68.mch.k2h.g99.ivg.g3x.k34.g7x.oqq.n4v.rs9.hkg.gmx.lxw.jh1.jmd.feo.fex",
    ".si2.ijq.ffx.gkz.jk7.rxs.jf7.o01.o6y.glk.lts.kcp.kco.n5f.gaa.gxi.sp9",
    "4.9hw,kdo,9hx.9hw,fex,9hx.9hw,fik,9hx.9hw,i2x,9hx.9hw,m9l,9hx.9hw,jf7,9hx",
    ".9hw,nh3,9hx.9hw,gd9,9hx.9hw,k0n,9hx 7.ivr.gkv 1we-9.1c"]

end GrammarInspector.Uri
